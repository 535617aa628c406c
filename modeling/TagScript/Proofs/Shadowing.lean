import TagScript.Proofs.Expression

/-!
Open scopes by their height, and what each of them can see. An environment is unshadowed if no scope
binds a name of a scope that it sees. Opening, closing and declaring keep it so, and with them every
evaluation.
-/

namespace TagScript

def Scope.Disjoint (scope other : Scope) : Prop :=
  ∀ name, ¬ (scope.binds name ∧ other.binds name)

namespace Environment

/-- The environment as it is seen from the open scope at a height. The global scope has height 0 and
each block is one higher than the scope around it. -/
def atHeight (height : Nat) (env : Environment) : Environment :=
  { env with blocks := env.blocks.drop (env.blocks.length - height) }

def scopeAt (height : Nat) (env : Environment) : Scope := (env.atHeight height).current

def linkedAt (height : Nat) (env : Environment) : Bool :=
  (env.atHeight height).blocks.head?.any (·.linked)

/-- Every block from the inner scope down to the outer one, which does not count, is linked. -/
def Sees (env : Environment) (inner outer : Nat) : Prop :=
  outer < inner ∧ inner < env.depth ∧
    ∀ height, outer < height → height ≤ inner → env.linkedAt height

/-- No open scope binds a name that a scope visible from it binds as well. -/
def Unshadowed (env : Environment) : Prop :=
  ∀ inner outer, env.Sees inner outer → (env.scopeAt inner).Disjoint (env.scopeAt outer)

section AtHeight

variable {env : Environment} {height : Nat}

theorem atHeight_cons (global : Scope) (block : Block) {rest : List Block}
    (h : height ≤ rest.length) :
    atHeight height ⟨global, block :: rest⟩ = atHeight height ⟨global, rest⟩ := by
  have hsub : rest.length + 1 - height = rest.length - height + 1 := by omega
  simp [atHeight, hsub]

theorem atHeight_of_le (h : env.blocks.length ≤ height) : env.atHeight height = env := by
  simp [atHeight, Nat.sub_eq_zero_of_le h]

theorem atHeight_enter (scoping : Scoping) (h : height < env.depth) :
    (env.enter scoping).atHeight height = env.atHeight height :=
  atHeight_cons env.global _ (Nat.le_of_lt_succ h)

theorem atHeight_leave (h : height < env.leave.depth) :
    env.leave.atHeight height = env.atHeight height := by
  rcases env with ⟨global, _ | ⟨block, rest⟩⟩
  · rfl
  · exact (atHeight_cons global block (Nat.le_of_lt_succ h)).symm

theorem atHeight_modifyCurrent (f : Scope → Scope) (h : height < env.blocks.length) :
    (env.modifyCurrent f).atHeight height = env.atHeight height := by
  rcases env with ⟨global, _ | ⟨block, rest⟩⟩
  · simp at h
  · have hle : height ≤ rest.length := Nat.le_of_lt_succ h
    rw [modifyCurrent, atHeight_cons _ _ hle, atHeight_cons _ _ hle]

theorem length_modifyCurrent (f : Scope → Scope) (env : Environment) :
    (env.modifyCurrent f).blocks.length = env.blocks.length := by
  rcases env with ⟨global, _ | ⟨block, rest⟩⟩ <;> rfl

theorem atHeight_modifyCurrent_of_le (f : Scope → Scope) (h : env.blocks.length ≤ height) :
    (env.modifyCurrent f).atHeight height = env.modifyCurrent f := by
  apply atHeight_of_le
  rwa [length_modifyCurrent]

theorem linkedAt_top (global : Scope) (block : Block) (rest : List Block) :
    linkedAt (rest.length + 1) ⟨global, block :: rest⟩ = block.linked := by
  simp [linkedAt, atHeight]

theorem linkedAt_cons (global : Scope) (block : Block) {rest : List Block}
    (h : height ≤ rest.length) :
    linkedAt height ⟨global, block :: rest⟩ = linkedAt height ⟨global, rest⟩ := by
  rw [linkedAt, atHeight_cons global block h, linkedAt]

theorem scopeAt_top (global : Scope) (block : Block) (rest : List Block) :
    scopeAt (rest.length + 1) ⟨global, block :: rest⟩ = block.scope := by
  simp [scopeAt, atHeight, current]

theorem scopeAt_cons (global : Scope) (block : Block) {rest : List Block}
    (h : height ≤ rest.length) :
    scopeAt height ⟨global, block :: rest⟩ = scopeAt height ⟨global, rest⟩ := by
  rw [scopeAt, atHeight_cons global block h, scopeAt]

theorem sees_cons_iff (global : Scope) (block : Block) {rest : List Block} {inner outer : Nat}
    (h : inner ≤ rest.length) :
    Sees ⟨global, block :: rest⟩ inner outer ↔ Sees ⟨global, rest⟩ inner outer := by
  constructor
  · rintro ⟨hlt, -, hlinks⟩
    refine ⟨hlt, Nat.lt_succ_of_le h, ?_⟩
    intro height hlow hhigh
    rw [← linkedAt_cons global block (Nat.le_trans hhigh h)]
    exact hlinks height hlow hhigh
  · rintro ⟨hlt, hinner, hlinks⟩
    refine ⟨hlt, Nat.lt_succ_of_lt hinner, ?_⟩
    intro height hlow hhigh
    rw [linkedAt_cons global block (Nat.le_trans hhigh h)]
    exact hlinks height hlow hhigh

theorem sees_top_iff (global : Scope) (block : Block) (rest : List Block) (outer : Nat) :
    Sees ⟨global, block :: rest⟩ (rest.length + 1) outer ↔
      block.linked ∧ (outer = rest.length ∨ Sees ⟨global, rest⟩ rest.length outer) := by
  constructor
  · rintro ⟨hlt, -, hlinks⟩
    constructor
    · rw [← linkedAt_top global block rest]
      exact hlinks _ hlt (Nat.le_refl _)
    · rcases Nat.eq_or_lt_of_le (Nat.le_of_lt_succ hlt) with h | h
      · exact .inl h
      · refine .inr ⟨h, Nat.lt_succ_self _, ?_⟩
        intro height hlow hhigh
        rw [← linkedAt_cons global block hhigh]
        exact hlinks height hlow (Nat.le_succ_of_le hhigh)
  · rintro ⟨hlinked, hrest⟩
    have hle : outer ≤ rest.length := by
      rcases hrest with rfl | ⟨hlt, -⟩
      · exact Nat.le_refl _
      · exact Nat.le_of_lt hlt
    refine ⟨Nat.lt_succ_of_le hle, Nat.lt_succ_self _, ?_⟩
    intro height hlow hhigh
    rcases Nat.eq_or_lt_of_le hhigh with rfl | h
    · rw [linkedAt_top, hlinked]
    · have hheight : height ≤ rest.length := Nat.le_of_lt_succ h
      rw [linkedAt_cons global block hheight]
      rcases hrest with rfl | ⟨-, -, hlinks⟩
      · omega
      · exact hlinks height hlow hheight

end AtHeight

theorem mem_visible_cons_iff (global : Scope) (block : Block) (rest : List Block)
    (scope : Scope) : scope ∈ visible ⟨global, block :: rest⟩ ↔
      scope = block.scope ∨ block.linked ∧ scope ∈ visible ⟨global, rest⟩ := by
  cases h : block.linked <;> simp [visible, seenThrough, h]

theorem mem_visible_iff (global : Scope) (blocks : List Block) (scope : Scope) :
    scope ∈ visible ⟨global, blocks⟩ ↔
      scope = scopeAt blocks.length ⟨global, blocks⟩ ∨ ∃ outer,
        Sees ⟨global, blocks⟩ blocks.length outer ∧ scope = scopeAt outer ⟨global, blocks⟩ := by
  induction blocks with
  | nil =>
    constructor
    · intro hmem
      exact .inl (List.mem_singleton.1 hmem)
    · rintro (rfl | ⟨outer, ⟨hlt, -⟩, -⟩)
      · exact List.mem_singleton_self _
      · simp at hlt
  | cons block rest ih =>
    rw [mem_visible_cons_iff, ih, List.length_cons, scopeAt_top]
    simp only [sees_top_iff]
    constructor
    · rintro (rfl | ⟨hlinked, rfl | ⟨outer, hsees, rfl⟩⟩)
      · exact .inl rfl
      · exact .inr ⟨rest.length, ⟨hlinked, .inl rfl⟩,
          (scopeAt_cons global block (Nat.le_refl _)).symm⟩
      · exact .inr ⟨outer, ⟨hlinked, .inr hsees⟩,
          (scopeAt_cons global block (Nat.le_of_lt hsees.1)).symm⟩
    · rintro (rfl | ⟨outer, ⟨hlinked, rfl | hsees⟩, rfl⟩)
      · exact .inl rfl
      · exact .inr ⟨hlinked, .inl (scopeAt_cons global block (Nat.le_refl _))⟩
      · exact .inr ⟨hlinked, .inr ⟨outer, hsees,
          scopeAt_cons global block (Nat.le_of_lt hsees.1)⟩⟩

theorem unshadowed_cons_iff (global : Scope) (block : Block) (rest : List Block) :
    Unshadowed ⟨global, block :: rest⟩ ↔ Unshadowed ⟨global, rest⟩ ∧
      (block.linked → ∀ outer ∈ visible ⟨global, rest⟩, block.scope.Disjoint outer) := by
  constructor
  · intro h
    constructor
    · intro inner outer hsees
      have hinner : inner ≤ rest.length := Nat.le_of_lt_succ hsees.2.1
      have houter : outer ≤ rest.length := Nat.le_trans (Nat.le_of_lt hsees.1) hinner
      have hd := h inner outer ((sees_cons_iff global block hinner).2 hsees)
      rwa [scopeAt_cons global block hinner, scopeAt_cons global block houter] at hd
    · intro hlinked scope hscope
      have htop : ∀ outer ≤ rest.length,
          (outer = rest.length ∨ Sees ⟨global, rest⟩ rest.length outer) →
          block.scope.Disjoint (scopeAt outer ⟨global, rest⟩) := by
        intro outer hle houter
        have hd := h _ outer ((sees_top_iff global block rest outer).2 ⟨hlinked, houter⟩)
        rwa [scopeAt_top, scopeAt_cons global block hle] at hd
      rcases (mem_visible_iff global rest scope).1 hscope with rfl | ⟨outer, hsees, rfl⟩
      · exact htop _ (Nat.le_refl _) (.inl rfl)
      · exact htop _ (Nat.le_of_lt hsees.1) (.inr hsees)
  · rintro ⟨hrest, hblock⟩ inner outer hsees
    rcases Nat.eq_or_lt_of_le (Nat.le_of_lt_succ hsees.2.1) with rfl | hlt
    · have houter : outer ≤ rest.length := Nat.le_of_lt_succ hsees.1
      obtain ⟨hlinked, hrest⟩ := (sees_top_iff global block rest outer).1 hsees
      rw [List.length_cons, scopeAt_top, scopeAt_cons global block houter]
      apply hblock hlinked
      rw [mem_visible_iff]
      rcases hrest with rfl | hrest
      · exact .inl rfl
      · exact .inr ⟨outer, hrest, rfl⟩
    · have hinner : inner ≤ rest.length := Nat.le_of_lt_succ hlt
      have houter : outer ≤ rest.length := Nat.le_trans (Nat.le_of_lt hsees.1) hinner
      rw [scopeAt_cons global block hinner, scopeAt_cons global block houter]
      exact hrest inner outer ((sees_cons_iff global block hinner).1 hsees)

theorem unshadowed_ofGlobal (global : Scope) : (ofGlobal global).Unshadowed := by
  rintro inner outer ⟨hlt, hinner, -⟩
  simp [ofGlobal, depth] at hinner
  omega

namespace Unshadowed

variable {env : Environment}

theorem enter (h : env.Unshadowed) (scoping : Scoping) : (env.enter scoping).Unshadowed := by
  apply (unshadowed_cons_iff ..).2
  refine ⟨h, ?_⟩
  intro _ outer _ name hname
  simp [Scope.empty, Scope.binds, Scope.get?] at hname

theorem leave (h : env.Unshadowed) : env.leave.Unshadowed := by
  rcases env with ⟨global, _ | ⟨block, rest⟩⟩
  · exact h
  · exact ((unshadowed_cons_iff ..).1 h).1

theorem modifyCurrent (h : env.Unshadowed) {f : Scope → Scope} {new : List (Entry Value)}
    (hbindings : (f env.current).bindings = env.current.bindings ++ new)
    (hnew : ∀ name ∈ Entry.keys new, env.lookup? name = none) :
    (env.modifyCurrent f).Unshadowed := by
  rcases env with ⟨global, _ | ⟨block, rest⟩⟩
  · exact unshadowed_ofGlobal (f global)
  · obtain ⟨hrest, hblock⟩ := (unshadowed_cons_iff ..).1 h
    apply (unshadowed_cons_iff ..).2
    refine ⟨hrest, ?_⟩
    rintro hlinked outer houter name ⟨hname, hbinds⟩
    by_cases hkey : name ∈ Entry.keys new
    · have hmem : outer ∈ visible ⟨global, block :: rest⟩ :=
        (mem_visible_cons_iff ..).2 (.inr ⟨hlinked, houter⟩)
      have hnone := hnew name hkey
      rw [lookup?, List.findSome?_eq_none_iff] at hnone
      simp [Scope.binds, hnone outer hmem] at hbinds
    · have hget : (f block.scope).get? name = block.scope.get? name :=
        Scope.get?_of_notMem_keys hbindings hkey
      rw [Scope.binds, hget] at hname
      exact hblock hlinked outer houter name ⟨hname, hbinds⟩

theorem declare? (h : env.Unshadowed) {name : String} {value : Value} {env' : Environment}
    (hdeclare : env.declare? name value = some env') : env'.Unshadowed := by
  obtain ⟨hlookup, rfl⟩ := of_declare?_eq_some hdeclare
  refine h.modifyCurrent rfl ?_
  simpa [Entry.keys] using hlookup

theorem pairwise_visible (h : env.Unshadowed) : env.visible.Pairwise Scope.Disjoint := by
  rcases env with ⟨global, blocks⟩
  induction blocks with
  | nil => exact List.pairwise_singleton _ _
  | cons block rest ih =>
    obtain ⟨hrest, hblock⟩ := (unshadowed_cons_iff ..).1 h
    cases hlinked : block.linked with
    | false => simp [visible, seenThrough, hlinked]
    | true =>
      simp only [visible, seenThrough, hlinked, if_true, List.pairwise_cons]
      exact ⟨hblock hlinked, ih hrest⟩

theorem atHeight (h : env.Unshadowed) (height : Nat) : (env.atHeight height).Unshadowed := by
  rcases env with ⟨global, blocks⟩
  induction blocks with
  | nil => rwa [atHeight_of_le (Nat.zero_le _)]
  | cons block rest ih =>
    rcases Nat.lt_or_ge rest.length height with hlt | hle
    · rwa [atHeight_of_le hlt]
    · rw [atHeight_cons global block hle]
      exact ih ((unshadowed_cons_iff ..).1 h).1

end Unshadowed

end Environment

namespace Statement

theorem congruence_unshadowed (host : Host) : Congruence host host fun x _ =>
    ∀ m : Machine, m.env.Unshadowed → (x.exec m).2.env.Unshadowed := by
  apply StepCongruence.congruence
  constructor
  case pure => exact fun _ _ h => h
  case throw => exact fun _ _ h => h
  case bind =>
    intro _ _ x _ f _ hx hf m hm
    rw [Run.exec_bind]
    have hx' := hx m hm
    split
    · next a m' h => exact hf a m' (by rwa [h] at hx')
    · next fault m' h => rwa [h] at hx'
  case readVariable =>
    intro name m hm
    rw [Run.exec_readVariable]
    split <;> exact hm
  case callee =>
    intro name m hm
    rw [Run.exec_callee]
    split <;> exact hm
  case call =>
    intro f args m hm
    rw [Run.exec_call]
    exact hm
  case declare =>
    intro name value m hm
    rw [Run.exec_declare]
    split
    · next env h => exact hm.declare? h
    · exact hm
  case inBlock =>
    intro x _ hx m hm
    rw [Run.exec_inBlock]
    exact (hx _ (hm.enter host.scoping)).leave

end Statement

end TagScript
