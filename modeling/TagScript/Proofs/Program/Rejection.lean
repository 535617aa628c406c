import TagScript.Proofs.Program.Layout
import TagScript.Proofs.Program.Place

namespace TagScript

namespace Json

theorem RelaidItems.exists_of_mem {optional : String → Prop} {j : Json} :
    ∀ {items items' : List Json}, RelaidItems optional items items' → j ∈ items →
      ∃ j' ∈ items', Relaid optional j j'
  | _, _, .cons hfirst hrest, hj => by
    rcases List.mem_cons.1 hj with rfl | hj
    · exact ⟨_, List.mem_cons_self, hfirst⟩
    · obtain ⟨j', hj', hrelaid⟩ := hrest.exists_of_mem hj
      exact ⟨j', List.mem_cons_of_mem _ hj', hrelaid⟩

theorem mapM_eq_none_of_mem {α : Type} {f : Json → Option α} {items : List Json} {j : Json}
    (hj : j ∈ items) (h : f j = none) : items.mapM f = none := by
  induction items with
  | nil => cases hj
  | cons first rest ih =>
    rw [List.mapM_cons]
    rcases List.mem_cons.1 hj with rfl | hj
    · rw [h]
      rfl
    · rw [ih hj]
      cases f first <;> rfl

end Json

namespace Statement

open Json

def Refused {α : Type} (read : Bool → Nat → Json → Option α) (j : Json) : Prop :=
  ∀ j', j.Relaid IsOptional j' → ∀ stored room, read stored room j' = none

namespace Refused

variable {α : Type} {read : Bool → Nat → Json → Option α}
  {readAll : Bool → Nat → Json → Option (List α)} {items : List Json} {j : Json}

theorem array (hzero : ∀ stored items, readAll stored 0 (.array items) = none)
    (hsucc : ∀ stored room items,
      readAll stored (room + 1) (.array items) = items.mapM (read stored room))
    (h : Refused read j) (hj : j ∈ items) : Refused readAll (.array items) := by
  intro _ hrelaid stored room
  cases hrelaid with
  | array hitems =>
    obtain ⟨j', hj', hrelaid⟩ := hitems.exists_of_mem hj
    cases room with
    | zero => rw [hzero]
    | succ room => rw [hsucc, mapM_eq_none_of_mem hj' (h j' hrelaid stored room)]

theorem all (h : Refused ofJson? j) (hj : j ∈ items) : Refused all? (.array items) :=
  array (fun _ _ => by rw [all?]; simp) (fun _ _ _ => by rw [all?]) h hj

theorem params (h : Refused param? j) (hj : j ∈ items) : Refused params? (.array items) :=
  array (fun _ _ => by rw [params?]; simp) (fun _ _ _ => by rw [params?]) h hj

theorem exists_of_relaidField {field : Option Json} (h : Refused readAll (.array items))
    (hj : j ∈ items) (hfield : RelaidField IsOptional items field) :
    ∃ j', field = some j' ∧ ∀ stored room, readAll stored room j' = none := by
  cases hfield with
  | missing => cases hj
  | present hitems => exact ⟨_, rfl, h _ (.array hitems)⟩

theorem of_succ (hzero : ∀ stored j, read stored 0 j = none)
    (h : ∀ j', j.Relaid IsOptional j' → ∀ stored room, read stored (room + 1) j' = none) :
    Refused read j := by
  intro j' hrelaid stored room
  cases room with
  | zero => exact hzero stored j'
  | succ room => exact h j' hrelaid stored room

theorem param (h : Refused ofJson? j) (key : String) : Refused param? (paramJson key j) := by
  refine of_succ (fun _ _ => by rw [param?]) fun j' hrelaid stored room => ?_
  obtain ⟨value, hfields, -, hvalue⟩ := fields?_of_relaid_param hrelaid
  rw [param?, hfields]
  simp [ofString, text?, h value hvalue stored room]

theorem sequence (h : Refused ofJson? j) (hj : j ∈ items) :
    Refused sequence? (sequenceBody items) := by
  refine of_succ (fun _ _ => by rw [sequence?]) fun j' hrelaid stored room => ?_
  obtain ⟨items', hfields, -, hitems⟩ := fields?_of_relaid_sequence hrelaid
  rw [sequence?, hfields]
  exact h.all hj _ (.array hitems) stored room

section Tags

variable {name : String} {params children : List Json}

theorem closeParams (h : Refused param? j) (hj : j ∈ params) :
    Refused closeTag? (closeBody name params) := by
  refine of_succ (fun _ _ => by rw [closeTag?]) fun j' hrelaid stored room => ?_
  obtain ⟨params', hfields, -, hparams⟩ := fields?_of_relaid_closeTag hrelaid
  obtain ⟨items, rfl, hnone⟩ := (h.params hj).exists_of_relaidField hj hparams
  rw [closeTag?, hfields]
  simp [hnone]

theorem openParams (h : Refused param? j) (hj : j ∈ params) :
    Refused openTag? (openBody name params children) := by
  refine of_succ (fun _ _ => by rw [openTag?]) fun j' hrelaid stored room => ?_
  obtain ⟨params', children', hfields, -, hparams, -⟩ := fields?_of_relaid_openTag hrelaid
  obtain ⟨items, rfl, hnone⟩ := (h.params hj).exists_of_relaidField hj hparams
  rw [openTag?, hfields]
  simp [hnone]

theorem openChildren (h : Refused ofJson? j) (hj : j ∈ children) :
    Refused openTag? (openBody name params children) := by
  refine of_succ (fun _ _ => by rw [openTag?]) fun j' hrelaid stored room => ?_
  obtain ⟨params', children', hfields, -, -, hchildren⟩ := fields?_of_relaid_openTag hrelaid
  obtain ⟨items, rfl, hnone⟩ := (h.all hj).exists_of_relaidField hj hchildren
  rw [openTag?, hfields]
  cases params' <;> simp [hnone]

end Tags

theorem of_body {kind : Kind}
    (hkind : ∀ {stored room j body first}, parts? stored room j = some ⟨kind, some body, first⟩ →
      read (stored || first) room body = none → ofJson? stored (room + 1) j = none)
    (h : Refused read j) : Refused ofJson? (tagged kind j) := by
  refine of_succ (fun _ _ => by rw [ofJson?]) fun j' hrelaid stored room => ?_
  obtain ⟨body, first, hbody, -, hparts⟩ := exists_parts_of_relaid hrelaid
  refine hkind ?_ (h body hbody (stored || first) room)
  rw [hparts, Kind.ofName?_name, Option.map_some]

theorem openTag (h : Refused openTag? j) : Refused ofJson? (tagged .openTag j) :=
  h.of_body fun hparts hnone => by
    rw [ofJson?, hparts]
    simp [hnone]

theorem ifTag (h : Refused openTag? j) : Refused ofJson? (tagged .ifTag j) :=
  h.of_body fun hparts hnone => by
    rw [ofJson?, hparts]
    simp [hnone]

theorem closeTag (h : Refused closeTag? j) : Refused ofJson? (tagged .closeTag j) :=
  h.of_body fun hparts hnone => by
    rw [ofJson?, hparts]
    simp [hnone]

theorem expression (h : Refused sequence? j) : Refused ofJson? (tagged .expression j) :=
  h.of_body fun hparts hnone => by
    rw [ofJson?, hparts]
    simp [hnone]

theorem wrapped (h : Refused ofJson? j) : Refused ofJson? (tagged .wrapped j) :=
  h.of_body fun hparts hnone => by
    rw [ofJson?, hparts]
    simp [hnone]

theorem fillJson (h : Refused ofJson? j) (frame : Frame) : Refused ofJson? (frame.fillJson j) := by
  cases frame with
  | openParam name before key after children =>
    exact ((h.param key).openParams (List.mem_append_cons_self)).openTag
  | openChild name params before after =>
    exact (h.openChildren (List.mem_append_cons_self)).openTag
  | closeParam name before key after =>
    exact ((h.param key).closeParams (List.mem_append_cons_self)).closeTag
  | ifParam name before key after children =>
    exact ((h.param key).openParams (List.mem_append_cons_self)).ifTag
  | ifChild name params before after =>
    exact (h.openChildren (List.mem_append_cons_self)).ifTag
  | item before after =>
    exact (h.sequence (List.mem_append_cons_self)).expression
  | wrapper => exact h.wrapped

theorem wayFillJson (h : Refused ofJson? j) (way : Way) : Refused ofJson? (way.fillJson j) := by
  induction way generalizing j with
  | nil => exact h
  | cons frame rest ih => exact ih (h.fillJson frame)

end Refused

end Statement

namespace Program

open Statement (IsOptional Refused)

theorem ofJson?_of_refused {j j' : Json} (h : Refused Statement.ofJson? j) (place : Place)
    (hj' : (place.document j).Relaid IsOptional j') : ofJson? j' = none := by
  have hsequence : Refused Statement.sequence? (place.document j) :=
    (h.wayFillJson place.way).sequence List.mem_append_cons_self
  rw [ofJson?, hsequence j' hj', Option.map_none]

end Program

def Json.withMember (j : Json) (name : String) (value : Json) : Json :=
  match j with
  | object members =>
    object (members.map fun (other, old) => (other, if other = some name then value else old))
  | j => j

theorem Operator.ofSymbol?_eq_none {text : String} (h : text ∉ all.map symbol) :
    ofSymbol? text = none := by
  rw [ofSymbol?, List.find?_eq_none]
  intro op hop heq
  exact h (List.mem_map.2 ⟨op, hop, of_decide_eq_true heq⟩)

namespace Statement

open Json

theorem Kind.ofName?_eq_none {text : String} (h : text ∉ all.map name) : ofName? text = none := by
  rw [ofName?, List.find?_eq_none]
  intro kind hkind heq
  exact h (List.mem_map.2 ⟨kind, hkind, of_decide_eq_true heq⟩)

/-- The document of a statement, but for a kind that is none or for the symbol of no operator. -/
inductive Misnamed : Statement → Json → Prop
  | kind {s text} (h : text ∉ Kind.all.map Kind.name) :
    Misnamed s (s.toJson.withMember "kind" (.ofString text))
  | symbol {op text} (h : text ∉ Operator.all.map Operator.symbol) :
    Misnamed (operator op) ((operator op).toJson.withMember "body" (.ofString text))

theorem toJson_eq_tagged_or_endMark (s : Statement) :
    (∃ body, s.toJson = tagged s.kind body) ∨ s = endMark := by
  cases s <;> simp [toJson, kind]

theorem refused_of_unknown_kind {text : String} (h : Kind.ofName? text = none) (body : Json) :
    Refused ofJson? (.ofMembers [("kind", .ofString text), ("body", body)]) := by
  refine .of_succ (fun _ _ => by rw [ofJson?]) fun j' hrelaid stored room => ?_
  obtain ⟨_, _, -, -, hparts⟩ := exists_parts_of_relaid hrelaid
  rw [ofJson?, hparts, h]
  rfl

theorem refused_of_unknown_kind_alone {text : String} (h : Kind.ofName? text = none) :
    Refused ofJson? (.ofMembers [("kind", .ofString text)]) := by
  refine .of_succ (fun _ _ => by rw [ofJson?]) fun j' hrelaid stored room => ?_
  cases hrelaid with
  | object hmembers hperm =>
    obtain ⟨_, rest, rfl, hkind, hrest⟩ := hmembers.of_cons (by simp [IsOptional])
    cases hrest
    cases hkind
    obtain rfl := List.singleton_perm.1 hperm
    rw [ofJson?]
    simp [parts?, isPart, kindMember?, symbol?, h]

theorem refused_of_unknown_symbol {text : String} (h : Operator.ofSymbol? text = none) :
    Refused ofJson? (tagged .operator (.ofString text)) := by
  refine .of_succ (fun _ _ => by rw [ofJson?]) fun j' hrelaid stored room => ?_
  obtain ⟨body, first, hbody, -, hparts⟩ := exists_parts_of_relaid hrelaid
  cases hbody
  rw [ofJson?, hparts]
  simp [symbol?, h]

theorem Misnamed.refused {s : Statement} {j : Json} (h : s.Misnamed j) : Refused ofJson? j := by
  cases h with
  | kind h =>
    rcases s.toJson_eq_tagged_or_endMark with ⟨body, hs⟩ | rfl
    · rw [hs]
      exact refused_of_unknown_kind (Kind.ofName?_eq_none h) body
    · exact refused_of_unknown_kind_alone (Kind.ofName?_eq_none h)
  | symbol h => exact refused_of_unknown_symbol (Operator.ofSymbol?_eq_none h)

section Compositional

variable {P : Json → Prop} (hP : Compositional P) {j : Json}

include hP

theorem holds_withMember (h : P j) (name text : String) :
    P (j.withMember name (.ofString text)) := by
  cases j with
  | object members =>
    rw [hP.object] at h
    rw [withMember, hP.object, List.forall_mem_map]
    intro m hm
    refine ⟨(h m hm).1, ?_⟩
    by_cases hname : m.1 = some name
    · simpa [hname, ofString] using hP.string text
    · simpa [hname] using (h m hm).2
  | _ => exact h

theorem Misnamed.holds {s : Statement} (h : s.Misnamed j) : P j := by
  cases h with
  | kind => exact holds_withMember hP (holds_toJson hP s) "kind" _
  | symbol => exact holds_withMember hP (holds_toJson hP _) "body" _

theorem holds_fillJson (frame : Frame) (h : P j) : P (frame.fillJson j) := by
  have hchildren (before after : List Statement) :
      ∀ j' ∈ allJson before ++ j :: allJson after, P j' :=
    List.forall_mem_append.2
      ⟨holds_allJson hP before, List.forall_mem_cons.2 ⟨h, holds_allJson hP after⟩⟩
  have hparams (before : List (Entry Statement)) (key : String) (after : List (Entry Statement)) :
      ∀ j' ∈ paramsJson before ++ paramJson key j :: paramsJson after, P j' :=
    List.forall_mem_append.2 ⟨holds_paramsJson hP before,
      List.forall_mem_cons.2 ⟨holds_paramJson hP key h, holds_paramsJson hP after⟩⟩
  cases frame with
  | openParam name before key after children =>
    exact holds_tagged hP _ (holds_openBody hP name (hparams _ _ _) (holds_allJson hP children))
  | openChild name params before after =>
    exact holds_tagged hP _ (holds_openBody hP name (holds_paramsJson hP params) (hchildren _ _))
  | closeParam name before key after =>
    exact holds_tagged hP _ (holds_closeBody hP name (hparams _ _ _))
  | ifParam name before key after children =>
    exact holds_tagged hP _ (holds_openBody hP name (hparams _ _ _) (holds_allJson hP children))
  | ifChild name params before after =>
    exact holds_tagged hP _ (holds_openBody hP name (holds_paramsJson hP params) (hchildren _ _))
  | item before after => exact holds_tagged hP _ (holds_sequenceBody hP (hchildren _ _))
  | wrapper => exact holds_tagged hP _ h

theorem holds_wayFillJson (way : Way) (h : P j) : P (way.fillJson j) := by
  induction way generalizing j with
  | nil => exact h
  | cons frame rest ih => exact ih (holds_fillJson hP frame h)

theorem holds_document (place : Program.Place) (h : P j) : P (place.document j) :=
  holds_sequenceBody hP <| List.forall_mem_append.2 ⟨holds_allJson hP place.before,
    List.forall_mem_cons.2 ⟨holds_wayFillJson hP place.way h, holds_allJson hP place.after⟩⟩

end Compositional

end Statement

namespace Program

/-- Every statement in a program stands at some place. If at the place of a statement its kind, or
the symbol of an operator, is replaced by a text that is no such name, then the program is turned
down and nothing of it is run, whatever the other statements are. -/
theorem load_misnamed (program : Program) (s : Statement) :
    (s ∈ Statement.allNodes program.statements → ∃ place : Place, place.program s = program) ∧
      ∀ place : Place, place.program s = program → place.document s.toJson = program.toJson ∧
        ∀ j, s.Misnamed j → ∃ message,
          load (place.document j).render = .error (.structural message) ∧
          ∀ scoping printer, runSource (place.document j).render scoping printer =
            (.error (.structural message), printer) := by
  refine ⟨exists_place_of_mem_nodes, ?_⟩
  rintro place rfl
  refine ⟨place.document_toJson s, fun j hj => ?_⟩
  have hplain : (place.document j).Plain :=
    Statement.holds_document Json.compositional_plain place (hj.holds Json.compositional_plain)
  have hload := load_eq_error (Json.parse?_render hplain)
    (ofJson?_of_refused hj.refused place (.refl _ _))
  refine ⟨_, hload, fun scoping printer => ?_⟩
  rw [runSource, hload]

theorem load_misnamed_unreached :
    let print : Statement := .closeTag "Print" [⟨"text", .string "hi"⟩]
    let param : Place := ⟨[print], [.item [.number 1, .number 2] [],
      .openParam "Block" [] "x" [] []], []⟩
    let child : Place := ⟨[print], [.openChild "Block" []
      [.conditional (.binary (.number 1) .equal (.number 1)) []] []], [.endMark]⟩
    let symbol := Statement.tagged .operator (.ofString "%")
    let kind := Json.ofMembers [("kind", .ofString "closeTag"),
      ("body", .ofMembers [("name", .ofString "Print"), ("params", .array [])])]
    (param.program (.operator .add)).statements = [print, .openTag "Block"
        [⟨"x", .binary (.number 1) .add (.number 2)⟩] []] ∧
      (∃ message, load (param.document symbol).render = .error (.structural message) ∧
        ∀ scoping printer, runSource (param.document symbol).render scoping printer =
          (.error (.structural message), printer)) ∧
      ∃ message, load (child.document kind).render = .error (.structural message) ∧
        ∀ scoping printer, runSource (child.document kind).render scoping printer =
          (.error (.structural message), printer) := by
  intro print param child symbol kind
  have hsymbol : (Statement.operator .add).Misnamed symbol :=
    .symbol (show "%" ∉ Operator.all.map Operator.symbol by decide)
  have hkind : (Statement.closeTag "Print" []).Misnamed kind :=
    .kind (show "closeTag" ∉ Statement.Kind.all.map Statement.Kind.name by decide)
  exact ⟨rfl, ((load_misnamed _ _).2 param rfl).2 symbol hsymbol,
    ((load_misnamed _ _).2 child rfl).2 kind hkind⟩

end Program

end TagScript
