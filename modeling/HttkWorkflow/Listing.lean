import Mathlib.Data.List.Basic
import Mathlib.Data.List.Nodup

/-!
# Listings that are no snapshots

A directory is read while others rename in it. What such a read promises is
little: a name that was there all the time is reported, a name that never was
is not, and a name that came or went in between may be reported or not. A
`Listing` keeps, while the read is under way, the two sets that say this – the
names it may report and those it must – and what the read finally reports is
any list between them without repetition.

The names are of any type. A listing is opened on the contents of the
directory, is told the new contents whenever they change, and is closed with a
report.
-/

universe u

/-- **A listing under way.** -/
structure Listing (ν : Type u) where
  /-- The names that were there at some moment since it was opened. -/
  may : List ν
  /-- The names that were there at every moment since. -/
  must : List ν

namespace Listing

variable {ν : Type u}

def opened (contents : List ν) : Listing ν := ⟨contents, contents⟩

/-- The listing after the contents became others. -/
def changed [DecidableEq ν] (l : Listing ν) (contents : List ν) : Listing ν :=
  ⟨l.may ++ contents, l.must.filter (· ∈ contents)⟩

/-- **What a listing may report.** -/
def Reports (l : Listing ν) (names : List ν) : Prop :=
  names.Nodup ∧ (∀ x ∈ names, x ∈ l.may) ∧ ∀ x ∈ l.must, x ∈ names

instance [DecidableEq ν] (l : Listing ν) (names : List ν) : Decidable (l.Reports names) :=
  inferInstanceAs (Decidable (_ ∧ _ ∧ _))

section Changed

variable [DecidableEq ν] {l : Listing ν} {contents : List ν} {x : ν}

@[simp] theorem mem_may_changed : x ∈ (l.changed contents).may ↔ x ∈ l.may ∨ x ∈ contents :=
  List.mem_append

@[simp] theorem mem_must_changed : x ∈ (l.changed contents).must ↔ x ∈ l.must ∧ x ∈ contents := by
  unfold changed
  simp only [List.mem_filter, decide_eq_true_eq]

end Changed

end Listing
