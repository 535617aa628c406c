import TagScript.Statement

namespace TagScript

namespace Statement

mutual

def same : Statement → Statement → Bool
  | openTag n ps cs, openTag n' ps' cs' => n == n' && sameParams ps ps' && sameAll cs cs'
  | closeTag n ps, closeTag n' ps' => n == n' && sameParams ps ps'
  | ifTag n ps cs, ifTag n' ps' cs' => n == n' && sameParams ps ps' && sameAll cs cs'
  | identifier n, identifier n' => n == n'
  | number n, number n' => n == n'
  | string t, string t' => t == t'
  | expression is, expression is' => sameAll is is'
  | wrapped s, wrapped s' => same s s'
  | operator op, operator op' => op == op'
  | endMark, endMark => true
  | _, _ => false

def sameAll : List Statement → List Statement → Bool
  | [], [] => true
  | s :: rest, s' :: rest' => same s s' && sameAll rest rest'
  | _, _ => false

def sameParams : List (Entry Statement) → List (Entry Statement) → Bool
  | [], [] => true
  | ⟨k, s⟩ :: rest, ⟨k', s'⟩ :: rest' => k == k' && same s s' && sameParams rest rest'
  | _, _ => false

end

mutual

theorem same_iff : ∀ s t : Statement, s.same t = true ↔ s = t
  | openTag _ ps cs, t => by
    cases t <;> simp [same, and_assoc, sameParams_iff ps, sameAll_iff cs]
  | closeTag _ ps, t => by cases t <;> simp [same, sameParams_iff ps]
  | ifTag _ ps cs, t => by
    cases t <;> simp [same, and_assoc, sameParams_iff ps, sameAll_iff cs]
  | identifier _, t => by cases t <;> simp [same]
  | number _, t => by cases t <;> simp [same]
  | string _, t => by cases t <;> simp [same]
  | expression is, t => by cases t <;> simp [same, sameAll_iff is]
  | wrapped s, t => by cases t <;> simp [same, same_iff s]
  | operator _, t => by cases t <;> simp [same]
  | endMark, t => by cases t <;> simp [same]

theorem sameAll_iff : ∀ ss ts : List Statement, sameAll ss ts = true ↔ ss = ts
  | [], ts => by cases ts <;> simp [sameAll]
  | s :: rest, ts => by cases ts <;> simp [sameAll, same_iff s, sameAll_iff rest]

theorem sameParams_iff : ∀ ps qs : List (Entry Statement), sameParams ps qs = true ↔ ps = qs
  | [], qs => by cases qs <;> simp [sameParams]
  | ⟨k, s⟩ :: rest, qs => by
    cases qs <;> simp [sameParams, same_iff s, sameParams_iff rest, Entry.ext_iff]

end

instance : DecidableEq Statement := fun s t =>
  decidable_of_decidable_of_iff (same_iff s t)

end Statement

end TagScript
