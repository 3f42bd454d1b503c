import Std.Data.TreeMap
import Std.Data.TreeSet
import JvmFold.Member

/-!
# The Order of Members

Members compare by owner, then by name, then by descriptor. Sets and maps of
members are kept in this order, so walking over one gives the members as
answers list them.

## Main definitions

* `Member.order`: The comparison.
-/

namespace JvmFold

/-- Compares by owner, then by name, then by descriptor. -/
def Member.order : Member → Member → Ordering :=
  compareLex (compareOn Member.owner) (compareLex (compareOn Member.name)
    (compareOn Member.descriptor))

instance : Ord Member := ⟨Member.order⟩

instance : Std.TransOrd Member :=
  inferInstanceAs (Std.TransCmp (compareLex (compareOn Member.owner)
    (compareLex (compareOn Member.name) (compareOn Member.descriptor))))

instance : Std.LawfulEqOrd Member where
  compare_self := Std.ReflCmp.compare_self
  eq_of_compare {a b} h := by
    rcases a with ⟨o, n, d⟩
    rcases b with ⟨o', n', d'⟩
    change (compare o o').then ((compare n n').then (compare d d')) = .eq at h
    simp only [Ordering.then_eq_eq] at h
    rcases h with ⟨ho, hn, hd⟩
    have ho : o = o' := Std.compare_eq_iff_eq.mp ho
    have hn : n = n' := Std.compare_eq_iff_eq.mp hn
    have hd : d = d' := Std.compare_eq_iff_eq.mp hd
    rw [ho, hn, hd]

end JvmFold
