import TagScript.Proofs.Course
import TagScript.Proofs.Registry
import TagScript.Proofs.Soundness

namespace TagScript

namespace Value

/-- What a program can get hold of: literals, the functions registered, and what functions give back
when they are called with such values, marked or not. -/
inductive Obtainable (library : Library) (natives : List Native) : Value → Prop
  | plain {v : Value} (h : v.Plain) : Obtainable library natives v
  | registered {name : String} {f : Native} (h : Interpreter.registered? natives name = some f) :
    Obtainable library natives (.native f)
  | identifier {v : Value} (h : Obtainable library natives v) :
    Obtainable library natives (.identifier v)
  | resolved {v : Value} (h : Obtainable library natives v) : Obtainable library natives v.resolved
  | reply {f : Native} {args : Arguments} {v : Value} (hf : Obtainable library natives (.native f))
    (hargs : ∀ e ∈ args.entries, Obtainable library natives e.value)
    (h : (f.call library args).result = .ok v) : Obtainable library natives v

theorem Plain.type_ne_identifier {v : Value} (h : v.Plain) : v.type ≠ .identifier := by
  cases h <;> nofun

theorem Obtainable.exists_registered {library : Library} {natives : List Native}
    (hreply : ∀ name f, Interpreter.registered? natives name = some f → ∀ args v,
      (f.call library args).result = .ok v → v.resolved.type ≠ .native)
    {f : Native} (h : Obtainable library natives (.native f)) :
    ∃ name, Interpreter.registered? natives name = some f := by
  generalize hv : Value.native f = v at h
  replace hv : v.resolved = .native f := hv ▸ rfl
  induction h generalizing f with
  | plain h => cases h <;> cases hv
  | registered h =>
    cases hv
    exact ⟨_, h⟩
  | identifier _ ih => exact ih hv
  | resolved _ ih =>
    rw [resolved_resolved] at hv
    exact ih hv
  | reply _ _ h ihf _ =>
    obtain ⟨name, hname⟩ := ihf rfl
    have hne := hreply name _ hname _ _ h
    rw [hv] at hne
    exact absurd rfl hne

end Value

namespace Discipline

def unmarked : Discipline where
  node _ := True
  native _ := True
  value _ := True
  stored v := v.type ≠ .identifier
  argument _ := True
  value_of_plain _ := trivial
  value_of_stored _ := trivial
  argument_of_value _ := trivial
  argument_of_stored _ := trivial
  stored_resolved _ := Value.type_resolved_ne_identifier _

def obtainable (library : Library) (natives : List Native) : Discipline where
  node _ := True
  native f := Value.Obtainable library natives (.native f)
  value v := v.Obtainable library natives ∧ v.type ≠ .identifier
  stored v := v.Obtainable library natives ∧ v.type ≠ .identifier
  argument v := v.Obtainable library natives
  value_of_plain h := ⟨.plain h, h.type_ne_identifier⟩
  value_of_stored h := h
  argument_of_value h := h.1
  argument_of_stored h := .identifier h.1
  stored_resolved h := ⟨.resolved h, Value.type_resolved_ne_identifier _⟩

inductive Delivers (d : Discipline) : Statement → Value → Prop
  | byName {s : Statement} {name : String} {v : Value} (hs : s.bareName? = some name)
    (hv : d.stored v) : Delivers d s (.identifier v)
  | evaluated {s : Statement} {v : Value} (hs : s.bareName? = none) (hv : d.value v) :
    Delivers d s v

variable {d : Discipline} {s : Statement} {name : String} {v : Value}

theorem Delivers.of_unwrapped (h : d.Delivers s v) (hs : s.unwrapped = .identifier name) :
    ∃ w, v = .identifier w ∧ d.stored w := by
  cases h with
  | byName _ hv => exact ⟨_, rfl, hv⟩
  | evaluated hnone _ =>
    rw [(s.bareName?_eq_some_iff name).2 hs] at hnone
    cases hnone

theorem Delivers.type_eq_identifier_iff (h : d.Delivers s v)
    (hvalue : ∀ v, d.value v → v.type ≠ .identifier) :
    v.type = .identifier ↔ ∃ name, s.unwrapped = .identifier name := by
  constructor
  · intro htype
    cases h with
    | byName hs _ => exact ⟨_, (s.bareName?_eq_some_iff _).1 hs⟩
    | evaluated _ hv => exact absurd htype (hvalue v hv)
  · rintro ⟨name, hname⟩
    obtain ⟨w, rfl, -⟩ := h.of_unwrapped hname
    rfl

end Discipline

namespace Arguments

/-- The arguments are what the parameters have become, each of them as `R` tells. Of parameters with
one key the last one counts. -/
def ComeFrom (args : Arguments) (params : List (Entry Statement))
    (R : Statement → Value → Prop) : Prop :=
  ∀ key, Option.Rel R (Entry.get? key params.reverse) (args.get? key)

variable {args : Arguments} {params : List (Entry Statement)} {R Q : Statement → Value → Prop}

theorem ComeFrom.insert (h : args.ComeFrom params R) {param : Entry Statement} {value : Value}
    (hvalue : R param.value value) :
    (args.insert param.key value).ComeFrom (params ++ [param]) R := by
  intro key
  rw [Entry.get?_reverse_concat, get?_insert]
  split
  · exact .some hvalue
  · exact h key

theorem ComeFrom.mono (h : args.ComeFrom params R) (hRQ : ∀ s v, R s v → Q s v) :
    args.ComeFrom params Q := by
  intro key
  have hkey := h key
  generalize Entry.get? key params.reverse = s?, args.get? key = v? at hkey ⊢
  cases hkey with
  | some h => exact .some (hRQ _ _ h)
  | none => exact .none

end Arguments

namespace Run.Respects

theorem rules_unmarked (host : Host) :
    Rules .unmarked host host fun P x _ => x.Respects .unmarked (fun _ => True) P := by
  apply rules
  · exact fun _ _ => trivial
  · exact fun _ _ => trivial
  · intro f args _ _
    cases (f.call host.library args).result with
    | ok v => exact trivial
    | error fault => exact trivial

theorem rules_obtainable (host : Host) (natives : List Native)
    (hreply : ∀ f, Value.Obtainable host.library natives (.native f) → ∀ args v,
      (f.call host.library args).result = .ok v → v.type ≠ .identifier) :
    Rules (.obtainable host.library natives) host host
      fun P x _ => x.Respects (.obtainable host.library natives) (fun _ => True) P := by
  apply rules
  · exact fun _ _ => trivial
  · exact fun f h => h.1
  · intro f args hf hargs
    cases hresult : (f.call host.library args).result with
    | ok v => exact ⟨.reply hf hargs hresult, hreply f hf args v hresult⟩
    | error fault => exact trivial

end Run.Respects

section

variable {d : Discipline} {host : Host} {F : Fault → Prop}
  (hrules : Rules d host host fun P x _ => x.Respects d F P) (hnode : ∀ s, d.node s)

include hrules hnode

namespace Statement

theorem delivers_of_exec_evalArgument {param : Entry Statement} {value : Value} {m n : Machine}
    (hm : m.env.Holds d.stored)
    (h : (evalArgument host (fun _ => false) param).exec m = (.ok value, n)) :
    n.env.Holds d.stored ∧ d.Delivers param.value value := by
  rw [evalArgument] at h
  split at h
  · next name hs =>
    have hread := hrules.readVariable (hnode (.identifier name))
    obtain ⟨v, n', hv, hpure⟩ := Run.exec_bind_eq_ok_iff.1 h
    cases hpure
    exact ⟨hread.holds hm hv, .byName hs (hread.of_exec_eq_ok hm hv)⟩
  · next hs =>
    have heval := hrules.eval param.value fun _ _ => hnode _
    exact ⟨heval.holds hm h, .evaluated hs (heval.of_exec_eq_ok hm h)⟩

theorem comeFrom_of_exec_evalArguments {params : List (Entry Statement)} {result : Arguments}
    {n : Machine} (done : List (Entry Statement)) {args : Arguments} {m : Machine}
    (hm : m.env.Holds d.stored) (hdone : args.ComeFrom done d.Delivers)
    (h : (evalArguments host (fun _ => false) params args).exec m = (.ok result, n)) :
    result.ComeFrom (done ++ params) d.Delivers := by
  induction params generalizing done args m with
  | nil =>
    cases h
    rw [List.append_nil]
    exact hdone
  | cons param rest ih =>
    rw [evalArguments_cons] at h
    obtain ⟨value, m', hvalue, hrest⟩ := Run.exec_bind_eq_ok_iff.1 h
    obtain ⟨hm', hdelivers⟩ := delivers_of_exec_evalArgument hrules hnode hm hvalue
    rw [List.append_cons]
    exact ih _ hm' (hdone.insert hdelivers) hrest

theorem Calls.comeFrom {s : Statement} {m : Machine} {f : Native} {params : List (Entry Statement)}
    {args : Arguments} (h : Calls host s m f params args) (hm : m.env.Holds d.stored) :
    args.ComeFrom params d.Delivers := by
  obtain ⟨hcomes, -, -, hargs⟩ := h
  have hn := hcomes.holds hrules hnode hm
  exact comeFrom_of_exec_evalArguments hrules hnode [] hn (fun _ => .none) hargs

end Statement

theorem Interpreter.invariant_holds :
    Invariant fun i => i.host = host ∧ i.machine.env.Holds d.stored where
  evaluate := by
    rintro i s ⟨rfl, h⟩
    exact ⟨rfl, (hrules.eval s (fun _ _ => hnode _) _ h).1⟩
  run := by
    rintro i program ⟨rfl, h⟩
    exact ⟨rfl, (hrules.evalAll program.statements (fun _ _ => hnode _) _ h).1⟩
  opened := by
    rintro i ⟨rfl, h⟩
    exact ⟨rfl, h.enter _⟩
  closed := by
    rintro i ⟨rfl, h⟩
    exact ⟨rfl, h.leave⟩

end

namespace Interpreter

theorem holds_build {P : Value → Prop} (host : Host) (printer : Printer) {natives : List Native}
    (h : ∀ name f, registered? natives name = some f → P (.native f)) :
    (build host printer natives).machine.env.Holds P := by
  intro scope hscope e he
  cases List.mem_singleton.1 hscope
  obtain ⟨f, hf, hvalue⟩ := exists_registered_of_mem_global_build he
  rw [← hvalue]
  exact h e.key f hf

theorem builtin_or_mem_of_registered {natives : List Native} {name : String} {f : Native}
    (h : registered? natives name = some f) : f.Builtin ∨ f ∈ natives := by
  have hmem := List.mem_of_find?_eq_some h
  rw [List.mem_reverse, List.mem_append] at hmem
  refine hmem.imp_left fun hbuiltin => ?_
  cases hbuiltin with
  | head => exact .print
  | tail _ hrest =>
    cases List.mem_singleton.1 hrest
    exact .condition

/-- Whatever functions there are, no variable holds a marked value, neither between evaluations nor
within them, and bare names reach functions under a single mark. If no function that programs can
get hold of gives a marked value back, then evaluations give none, and functions are called with a
marked value exactly where a bare name is written. Functions that other functions hand out count as
well, since programs can call them. -/
theorem reachable_identifiers_confined (host : Host) (printer : Printer) (natives : List Native)
    (interpreter : Interpreter) (h : Reachable (build host printer natives) interpreter) :
    (∀ s t n, Statement.ComesTo interpreter.host s interpreter.machine t n →
      ∀ scope ∈ n.env.scopes, ∀ e ∈ scope.bindings, e.value.type ≠ .identifier) ∧
    (∀ s f params args, Statement.Calls interpreter.host s interpreter.machine f params args →
      args.ComeFrom params fun t v => (∃ name, t.unwrapped = .identifier name) →
        ∃ w, v = .identifier w ∧ w.type ≠ .identifier) ∧
    ((∀ f, Value.Obtainable host.library natives (.native f) → ∀ args v,
        (f.call host.library args).result = .ok v → v.type ≠ .identifier) →
      (∀ s v, (interpreter.evaluate s).1 = .ok v → v.type ≠ .identifier) ∧
      ∀ s f params args, Statement.Calls interpreter.host s interpreter.machine f params args →
        args.ComeFrom params fun t v =>
          v.type = .identifier ↔ ∃ name, t.unwrapped = .identifier name) := by
  have hunmarked := Run.Respects.rules_unmarked host
  obtain ⟨rfl, hholds⟩ :=
    h.keeps (invariant_holds hunmarked fun _ => trivial) ⟨rfl, holds_build host printer nofun⟩
  refine ⟨?_, ?_, ?_⟩
  · intro s t n hcomes
    exact hcomes.holds hunmarked (fun _ => trivial) hholds
  · intro s f params args hcalls
    apply (hcalls.comeFrom hunmarked (fun _ => trivial) hholds).mono
    rintro t v hdelivers ⟨name, hname⟩
    exact hdelivers.of_unwrapped hname
  · intro hreply
    have hobtainable := Run.Respects.rules_obtainable interpreter.host natives hreply
    obtain ⟨-, hholds⟩ := h.keeps (invariant_holds hobtainable fun _ => trivial)
      ⟨rfl, holds_build _ printer fun _ _ hf => ⟨.registered hf, nofun⟩⟩
    constructor
    · intro s v hv
      have heval : Meets _ _ (interpreter.evaluate s).1 :=
        (hobtainable.eval s (fun _ _ => trivial) interpreter.machine hholds).2
      rw [hv] at heval
      exact heval.2
    · intro s f params args hcalls
      apply (hcalls.comeFrom hobtainable (fun _ => trivial) hholds).mono
      exact fun t v hdelivers => hdelivers.type_eq_identifier_iff fun _ hv => hv.2

/-- It is not enough to look at the functions registered. One of them may give back no marked value
and still hand out a function that does, and a program can keep that function and call it. -/
theorem registered_replies_insufficient :
    let library : Library := fun serial _ =>
      ⟨[], .ok (if serial = 0 then .native (.host 1 "Mark") else .identifier .undefined)⟩
    let give : Native := .host 0 "Give"
    let start := build ⟨.lexical, library⟩ (.buffer "") [give]
    let reached := (start.evaluate
      (.closeTag "Let" [⟨"id", .string "mark"⟩, ⟨"value", .closeTag "Give" []⟩])).2
    let mark : Statement := .closeTag "mark" []
    let params : List (Entry Statement) := [⟨"text", mark⟩]
    let args : Arguments := ⟨[⟨"text", .identifier .undefined⟩]⟩
    (∀ name f, registered? [give] name = some f → ∀ args v,
        (f.call library args).result = .ok v → v.type ≠ .identifier) ∧
      Reachable start reached ∧
      (reached.evaluate mark).1 = .ok (.identifier .undefined) ∧
      Statement.Calls reached.host (.closeTag "Print" params) reached.machine .print params args ∧
      ¬ args.ComeFrom params fun t v =>
        v.type = .identifier ↔ ∃ name, t.unwrapped = .identifier name := by
  intro library give start reached mark params args
  refine ⟨?_, .outside (.evaluate _ (.refl _)), rfl, .intro .start (by decide) rfl rfl, ?_⟩
  · intro name f hf args v hv
    rcases builtin_or_mem_of_registered hf with hbuiltin | hgive
    · exact (hbuiltin.plain_of_call hv).type_ne_identifier
    · cases List.mem_singleton.1 hgive
      cases hv
      nofun
  · intro hcome
    have htext : Option.Rel _ (some mark) (some (Value.identifier .undefined)) := hcome "text"
    cases htext with
    | some hiff =>
      obtain ⟨name, hname⟩ := hiff.1 rfl
      cases hname

theorem reachable_identifiers_confined_replies :
    let library : Library := fun serial _ =>
      ⟨[], .ok (if serial = 0 then .number 5 else .identifier (.identifier (.number 5)))⟩
    let start (natives : List Native) := build ⟨.lexical, library⟩ (.buffer "") natives
    let call (name : String) : Statement := .closeTag name []
    let reached (natives : List Native) (name : String) : Interpreter :=
      ((start natives).evaluate
        (.closeTag "Let" [⟨"id", .string "x"⟩, ⟨"value", call name⟩])).2
    let five : Native := .host 0 "Five"
    let mark : Native := .host 1 "Mark"
    let params : List (Entry Statement) :=
      [⟨"first", .wrapped (.identifier "x")⟩, ⟨"second", .number 1⟩]
    let args : Arguments := ⟨[⟨"first", .identifier (.number 5)⟩, ⟨"second", .number 1⟩]⟩
    let s : Statement := .openTag "Block" [] [.closeTag "Five" params]
    let marking := reached [five, mark] "Mark"
    let plain := reached [five] "Five"
    (∀ natives name, Reachable (start natives) (reached natives name)) ∧
    ((marking.evaluate (call "Mark")).1 = .ok (.identifier (.identifier (.number 5))) ∧
      (∀ scope ∈ marking.machine.env.scopes, ∀ e ∈ scope.bindings, e.value.type ≠ .identifier) ∧
      s.Calls marking.host marking.machine five params args ∧
      args.ComeFrom params fun t v => (∃ name, t.unwrapped = .identifier name) →
        ∃ w, v = .identifier w ∧ w.type ≠ .identifier) ∧
    ((∀ f, Value.Obtainable library [five] (.native f) → ∀ args v,
        (f.call library args).result = .ok v → v.type ≠ .identifier) ∧
      (∀ s v, (plain.evaluate s).1 = .ok v → v.type ≠ .identifier) ∧
      s.Calls plain.host plain.machine five params args ∧
      args.ComeFrom params fun t v =>
        v.type = .identifier ↔ ∃ name, t.unwrapped = .identifier name) := by
  intro library start call reached five mark params args s marking plain
  have hreachable : ∀ natives name, Reachable (start natives) (reached natives name) :=
    fun natives name => .outside (.evaluate _ (.refl _))
  have hregistered : ∀ name f, registered? [five] name = some f → ∀ args v,
      (f.call library args).result = .ok v → v.Plain := by
    intro name f hf args v hv
    rcases builtin_or_mem_of_registered hf with hbuiltin | hfive
    · exact hbuiltin.plain_of_call hv
    · cases List.mem_singleton.1 hfive
      cases hv
      exact .number 5
  have hreply : ∀ f, Value.Obtainable library [five] (.native f) → ∀ args v,
      (f.call library args).result = .ok v → v.type ≠ .identifier := by
    intro f hf args v hv
    obtain ⟨name, hname⟩ := hf.exists_registered fun name f hf args v hv htype => by
      cases hregistered name f hf args v hv <;> cases htype
    exact (hregistered name f hname args v hv).type_ne_identifier
  have htakes : ∀ m : Machine, Statement.Takes ⟨.lexical, library⟩ s m (.closeTag "Five" params)
      { m with env := m.env.enter .lexical } := fun m =>
    @Statement.Takes.child _ "Block" [] [] _ [] m _ _ (List.forall_mem_nil _) (.inr (.inl rfl)) rfl
  have hmarking : s.Calls marking.host marking.machine five params args :=
    .intro (.next .start (htakes _)) (by decide) rfl rfl
  have hplain : s.Calls plain.host plain.machine five params args :=
    .intro (.next .start (htakes _)) (by decide) rfl rfl
  obtain ⟨hvariables, hmarked, -⟩ := reachable_identifiers_confined ⟨.lexical, library⟩
    (.buffer "") [five, mark] marking (hreachable [five, mark] "Mark")
  obtain ⟨-, -, hunmarked⟩ := reachable_identifiers_confined ⟨.lexical, library⟩
    (.buffer "") [five] plain (hreachable [five] "Five")
  obtain ⟨hvalues, hnames⟩ := hunmarked hreply
  exact ⟨hreachable, ⟨rfl, hvariables s s _ .start, hmarking, hmarked _ _ _ _ hmarking⟩,
    hreply, hvalues, hplain, hnames _ _ _ _ hplain⟩

end Interpreter

end TagScript
