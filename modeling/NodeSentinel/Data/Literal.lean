import Mathlib

/-!
# Literals

The instances behind the literals of the tuning and of the samples.  They have names, so that
a definition that writes a literal refers to one of them and not to a proof of its own.
-/

instance atLeastTwo_2 : Nat.AtLeastTwo 2 := ⟨by decide⟩

instance atLeastTwo_3 : Nat.AtLeastTwo 3 := ⟨by decide⟩

instance atLeastTwo_4 : Nat.AtLeastTwo 4 := ⟨by decide⟩

instance atLeastTwo_7 : Nat.AtLeastTwo 7 := ⟨by decide⟩

instance atLeastTwo_10 : Nat.AtLeastTwo 10 := ⟨by decide⟩

instance atLeastTwo_15 : Nat.AtLeastTwo 15 := ⟨by decide⟩

instance atLeastTwo_100 : Nat.AtLeastTwo 100 := ⟨by decide⟩

instance atLeastTwo_1000000 : Nat.AtLeastTwo 1000000 := ⟨by decide⟩

instance neZero_1 : NeZero 1 := ⟨by decide⟩

instance neZero_2 : NeZero 2 := ⟨by decide⟩
