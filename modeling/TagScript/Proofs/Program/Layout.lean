import Mathlib.Data.List.Permutation
import TagScript.CommandLine
import TagScript.Proofs.Json.Layout
import TagScript.Proofs.Program.Place

/-!
Programs are read from every layout of their documents, whether a body stands before its kind or
behind it. The limit on nesting is counted down while a document is read, one level for each array
and each object, so every reader takes what was written exactly if the document at hand fits into
the room that is left.
-/

namespace TagScript

namespace Json

def fits {α : Type} (room depth : Nat) (a : α) : Option α := if depth ≤ room then some a else none

section Fits

variable {α β : Type} (room depth : Nat) (a : α)

@[simp] theorem fits_flat : fits room 0 a = some a := by
  simp [fits]

@[simp] theorem fits_no_room : fits 0 (depth + 1) a = none := by
  simp [fits]

@[simp] theorem fits_inside : fits (room + 1) (depth + 1) a = fits room depth a := by
  simp [fits]

@[simp] theorem map_fits (f : α → β) : (fits room depth a).map f = fits room depth (f a) := by
  simp [fits, apply_ite]

@[simp] theorem bind_fits_some (f : α → β) :
    ((fits room depth a).bind fun a => some (f a)) = fits room depth (f a) := by
  rw [← map_fits, Option.map_eq_bind]
  rfl

@[simp] theorem bind_fits (deep : Nat) (f : α → β) :
    ((fits room depth a).bind fun a => fits room deep (f a)) = fits room (max depth deep) (f a) := by
  by_cases h : depth ≤ room
  · simp [fits, h]
  · simp [fits, h]

end Fits

def Reads {α : Type} (read : Nat → Json → Option α) (j : Json) (a : α) : Prop :=
  ∀ room, read room j = fits room j.depth a

theorem Reads.of_succ {α : Type} {read : Nat → Json → Option α} {j : Json} {a : α} {depth : Nat}
    (hdepth : j.depth = depth + 1) (hzero : read 0 j = none)
    (h : ∀ room, read (room + 1) j = fits room depth a) : Reads read j a
  | 0 => by rw [hzero, hdepth, fits_no_room]
  | room + 1 => by rw [h, hdepth, fits_inside]

theorem mapM_cons_eq_fits {α : Type} {f : Json → Option α} {j : Json} {items : List Json} {a : α}
    {as : List α} {room depth deep : Nat} (hj : f j = fits room depth a)
    (hitems : items.mapM f = fits room deep as) :
    (j :: items).mapM f = fits room (max depth deep) (a :: as) := by
  rw [List.mapM_cons, hj, hitems]
  simp

inductive ReadsField {α : Type} (read : Nat → Json → Option (List α)) : Option Json → List α → Prop
  | missing : ReadsField read none []
  | present {j as} (h : Reads read j as) : ReadsField read (some j) as

theorem ReadsField.of_relaid {α : Type} {read : Nat → Json → Option (List α)}
    {optional : String → Prop} {items : List Json} {field : Option Json} {as : List α}
    (hnil : items = [] → as = [])
    (hread : ∀ {items'}, RelaidItems optional items items' → Reads read (.array items') as)
    (h : RelaidField optional items field) : ReadsField read field as := by
  cases h with
  | missing =>
    obtain rfl := hnil rfl
    exact .missing
  | present h => exact .present (hread h)

def fieldDepth : Option Json → Nat
  | none => 0
  | some j => j.depth

end Json

namespace Statement

open Json

def IsOptional (name : String) : Prop := name = "params" ∨ name = "children"

section Compositional

variable {P : Json → Prop}

theorem holds_tagged (hP : Compositional P) (kind : Kind) {body : Json} (h : P body) :
    P (tagged kind body) := by
  rw [tagged, hP.ofMembers_iff]
  simpa [ofString] using ⟨hP.string kind.name, h⟩

theorem holds_openBody (hP : Compositional P) (name : String) {params children : List Json}
    (hparams : ∀ j ∈ params, P j) (hchildren : ∀ j ∈ children, P j) :
    P (openBody name params children) := by
  rw [openBody, hP.ofMembers_iff]
  simpa [ofString, hP.array] using ⟨hP.string name, hparams, hchildren⟩

theorem holds_closeBody (hP : Compositional P) (name : String) {params : List Json}
    (hparams : ∀ j ∈ params, P j) : P (closeBody name params) := by
  rw [closeBody, hP.ofMembers_iff]
  simpa [ofString, hP.array] using ⟨hP.string name, hparams⟩

theorem holds_sequenceBody (hP : Compositional P) {items : List Json} (h : ∀ j ∈ items, P j) :
    P (sequenceBody items) := by
  rw [sequenceBody, hP.ofMembers_iff]
  simpa [hP.array] using h

theorem holds_paramJson (hP : Compositional P) (key : String) {j : Json} (h : P j) :
    P (paramJson key j) := by
  rw [paramJson, hP.ofMembers_iff]
  simpa [ofString] using ⟨hP.string key, h⟩

mutual

theorem holds_toJson (hP : Compositional P) : ∀ s : Statement, P s.toJson
  | openTag name params children => holds_tagged hP _
    (holds_openBody hP name (holds_paramsJson hP params) (holds_allJson hP children))
  | closeTag name params => holds_tagged hP _ (holds_closeBody hP name (holds_paramsJson hP params))
  | ifTag name params children => holds_tagged hP _
    (holds_openBody hP name (holds_paramsJson hP params) (holds_allJson hP children))
  | identifier name => holds_tagged hP _ (hP.string name)
  | number n => holds_tagged hP _ (hP.integer n)
  | string text => holds_tagged hP _ (hP.string text)
  | expression items => holds_tagged hP _ (holds_sequenceBody hP (holds_allJson hP items))
  | wrapped inner => holds_tagged hP _ (holds_toJson hP inner)
  | operator op => holds_tagged hP _ (hP.string op.symbol)
  | endMark => by
    rw [toJson, hP.ofMembers_iff]
    simpa [ofString] using hP.string Kind.endMark.name

theorem holds_allJson (hP : Compositional P) : ∀ (all : List Statement), ∀ j ∈ allJson all, P j
  | [] => by simp [allJson]
  | s :: rest => List.forall_mem_cons.2 ⟨holds_toJson hP s, holds_allJson hP rest⟩

theorem holds_paramsJson (hP : Compositional P) :
    ∀ (params : List (Entry Statement)), ∀ j ∈ paramsJson params, P j
  | [] => by simp [paramsJson]
  | ⟨key, s⟩ :: rest =>
    List.forall_mem_cons.2 ⟨holds_paramJson hP key (holds_toJson hP s), holds_paramsJson hP rest⟩

end

end Compositional

section Bodies

variable {stored : Bool} {j : Json}

theorem exists_parts_of_relaid {text : String} {body : Json}
    (h : Relaid IsOptional (.ofMembers [("kind", .ofString text), ("body", body)]) j) :
    ∃ body' bodyFirst, body.Relaid IsOptional body' ∧ j.depth = body'.depth + 1 ∧
      ∀ stored room, parts? stored room j =
        (Kind.ofName? text).map fun kind => ⟨kind, some body', bodyFirst⟩ := by
  simp only [ofMembers, List.map] at h
  cases h with
  | object hmembers hperm =>
    obtain ⟨name, rest, rfl, hname, hrest⟩ := hmembers.of_cons (by simp [IsOptional])
    obtain ⟨body', rest, rfl, hbody', hrest⟩ := hrest.of_cons (by simp [IsOptional])
    cases hrest
    cases hname
    rw [depth_object_of_perm hperm]
    rcases List.perm_pair.1 hperm.symm with rfl | rfl
    · exact ⟨body', false, hbody', by simp [depth, membersDepth],
        by simp [parts?, isPart, kindMember?, symbol?, Option.map_eq_bind]⟩
    · exact ⟨body', true, hbody', by simp [depth, membersDepth],
        by simp [parts?, isPart, kindMember?, symbol?, Option.map_eq_bind]⟩

/-- A body that has to be stored first is turned down only if there is no room to read it either. -/
theorem fits_of_storable {α : Type} {bodyFirst : Bool} {room : Nat} {body : Json} {x : Option α}
    {a : α} (h : body.Complete) (hx : x = fits room body.depth a) :
    (if bodyFirst ∧ ¬ body.storable room then none else x) = fits room body.depth a := by
  split
  · next hstored =>
    rw [fits, if_neg]
    rw [← h.storable_iff]
    exact hstored.2
  · exact hx

theorem reads_of_tagged {s : Statement} {kind : Kind} {body : Json}
    (hs : s.toJson = tagged kind body) (h : s.toJson.Relaid IsOptional j)
    (hbody : ∀ {body'} bodyFirst room, body.Relaid IsOptional body' → body'.Complete →
      parts? stored room j = some ⟨kind, some body', bodyFirst⟩ →
      ofJson? stored (room + 1) j = fits room body'.depth s) :
    Reads (ofJson? stored) j s := by
  have hcomplete : s.toJson.Complete := holds_toJson compositional_complete s
  rw [hs] at h hcomplete
  have hbodyComplete : body.Complete :=
    ((compositional_complete.object _).1 hcomplete (some "body", body) (by simp)).2
  obtain ⟨body', bodyFirst, hbody', hdepth, hparts⟩ := exists_parts_of_relaid h
  rw [Kind.ofName?_name, Option.map_some] at hparts
  exact .of_succ hdepth (by rw [ofJson?]) fun room =>
    hbody bodyFirst room hbody' (hbody'.keeps compositional_complete hbodyComplete)
      (hparts stored room)

theorem fields?_of_relaid_openTag {name : String} {params children : List Json}
    (h : Relaid IsOptional (openBody name params children) j) :
    ∃ params' children', j.fields? ["name", "params", "children"] =
        some [some (.ofString name), params', children'] ∧
      j.depth = max (fieldDepth params') (fieldDepth children') + 1 ∧
      RelaidField IsOptional params params' ∧ RelaidField IsOptional children children' := by
  simp only [openBody, ofMembers, List.map, ofString] at h
  cases h with
  | object hmembers hperm =>
    obtain ⟨_, rest, rfl, hname, hrest⟩ := hmembers.of_cons (by simp [IsOptional])
    obtain ⟨params', rest, rfl, hparams, hrest⟩ := hrest.of_cons_array
    obtain ⟨children', rest, rfl, hchildren, hrest⟩ := hrest.of_cons_array
    cases hrest
    cases hname
    rw [fields?_of_perm hperm, depth_object_of_perm hperm]
    refine ⟨params', children', ?_, ?_, hparams, hchildren⟩
    · cases params' <;> cases children' <;> rfl
    · cases params' <;> cases children' <;> simp [depth, membersDepth, fieldMember, fieldDepth]

theorem reads_openTag {name : String} {params children : List Json}
    {entries : List (Entry Statement)} {all : List Statement}
    (h : Relaid IsOptional (openBody name params children) j)
    (hparams : ∀ {field}, RelaidField IsOptional params field →
      ReadsField (params? stored) field entries)
    (hchildren : ∀ {field}, RelaidField IsOptional children field →
      ReadsField (all? stored) field all) :
    Reads (openTag? stored) j (name, entries, all) := by
  obtain ⟨params', children', hfields, hdepth, hparams', hchildren'⟩ := fields?_of_relaid_openTag h
  refine .of_succ hdepth (by rw [openTag?]) fun room => ?_
  rw [openTag?, hfields]
  rcases hparams hparams' with _ | hparams <;> rcases hchildren hchildren' with _ | hchildren
  · simp [ofString, text?, fieldDepth]
  · simp [ofString, text?, fieldDepth, hchildren room]
  · simp [ofString, text?, fieldDepth, hparams room]
  · simp [ofString, text?, fieldDepth, hparams room, hchildren room]

theorem fields?_of_relaid_closeTag {name : String} {params : List Json}
    (h : Relaid IsOptional (closeBody name params) j) :
    ∃ params', j.fields? ["name", "params"] = some [some (.ofString name), params'] ∧
      j.depth = fieldDepth params' + 1 ∧ RelaidField IsOptional params params' := by
  simp only [closeBody, ofMembers, List.map, ofString] at h
  cases h with
  | object hmembers hperm =>
    obtain ⟨_, rest, rfl, hname, hrest⟩ := hmembers.of_cons (by simp [IsOptional])
    obtain ⟨params', rest, rfl, hparams, hrest⟩ := hrest.of_cons_array
    cases hrest
    cases hname
    rw [fields?_of_perm hperm, depth_object_of_perm hperm]
    refine ⟨params', ?_, ?_, hparams⟩
    · cases params' <;> rfl
    · cases params' <;> simp [depth, membersDepth, fieldMember, fieldDepth]

theorem reads_closeTag {name : String} {params : List Json} {entries : List (Entry Statement)}
    (h : Relaid IsOptional (closeBody name params) j)
    (hparams : ∀ {field}, RelaidField IsOptional params field →
      ReadsField (params? stored) field entries) :
    Reads (closeTag? stored) j (name, entries) := by
  obtain ⟨params', hfields, hdepth, hparams'⟩ := fields?_of_relaid_closeTag h
  refine .of_succ hdepth (by rw [closeTag?]) fun room => ?_
  rw [closeTag?, hfields]
  rcases hparams hparams' with _ | hparams
  · simp [ofString, text?, fieldDepth]
  · simp [ofString, text?, fieldDepth, hparams room]

theorem fields?_of_relaid_sequence {items : List Json}
    (h : Relaid IsOptional (sequenceBody items) j) :
    ∃ items', j.fields? ["statements"] = some [some (.array items')] ∧
      j.depth = (Json.array items').depth + 1 ∧ RelaidItems IsOptional items items' := by
  simp only [sequenceBody, ofMembers, List.map] at h
  cases h with
  | object hmembers hperm =>
    obtain ⟨_, rest, rfl, harray, hrest⟩ := hmembers.of_cons (by simp [IsOptional])
    cases hrest
    cases harray with
    | @array _ items' harray =>
      obtain rfl := List.singleton_perm.1 hperm
      exact ⟨items', rfl, by simp [depth, membersDepth], harray⟩

theorem reads_sequence {items : List Json} {all : List Statement}
    (h : Relaid IsOptional (sequenceBody items) j)
    (hitems : ∀ {items'}, RelaidItems IsOptional items items' →
      Reads (all? stored) (.array items') all) :
    Reads (sequence? stored) j all := by
  obtain ⟨items', hfields, hdepth, hitems'⟩ := fields?_of_relaid_sequence h
  refine .of_succ hdepth (by rw [sequence?]) fun room => ?_
  rw [sequence?, hfields]
  exact hitems hitems' room

theorem fields?_of_relaid_param {key : String} {value : Json}
    (h : Relaid IsOptional (paramJson key value) j) :
    ∃ value', j.fields? ["key", "value"] = some [some (.ofString key), some value'] ∧
      j.depth = value'.depth + 1 ∧ value.Relaid IsOptional value' := by
  simp only [paramJson, ofMembers, List.map, ofString] at h
  cases h with
  | object hmembers hperm =>
    obtain ⟨_, rest, rfl, hkey, hrest⟩ := hmembers.of_cons (by simp [IsOptional])
    obtain ⟨value', rest, rfl, hvalue', hrest⟩ := hrest.of_cons (by simp [IsOptional])
    cases hrest
    cases hkey
    rw [fields?_of_perm hperm, depth_object_of_perm hperm]
    exact ⟨value', rfl, by simp [depth, membersDepth], hvalue'⟩

theorem reads_param {key : String} {value : Json} {s : Statement}
    (h : Relaid IsOptional (paramJson key value) j)
    (hvalue : ∀ {value'}, value.Relaid IsOptional value' → Reads (ofJson? stored) value' s) :
    Reads (param? stored) j ⟨key, s⟩ := by
  obtain ⟨value', hfields, hdepth, hvalue'⟩ := fields?_of_relaid_param h
  refine .of_succ hdepth (by rw [param?]) fun room => ?_
  rw [param?, hfields]
  simp [ofString, text?, hvalue hvalue' room]

end Bodies

theorem allJson_eq_nil {all : List Statement} (h : allJson all = []) : all = [] := by
  cases all with
  | nil => rfl
  | cons => cases h

theorem paramsJson_eq_nil {params : List (Entry Statement)} (h : paramsJson params = []) :
    params = [] := by
  cases params with
  | nil => rfl
  | cons => cases h

mutual

theorem reads_relaid (stored : Bool) : ∀ (s : Statement) {j : Json},
    s.toJson.Relaid IsOptional j → Reads (ofJson? stored) j s
  | openTag name params children, _, h => by
    refine reads_of_tagged rfl h ?_
    intro _ first room hbody hcomplete hparts
    have hread := reads_openTag hbody
      (.of_relaid paramsJson_eq_nil (reads_relaidParams (stored || first) params))
      (.of_relaid allJson_eq_nil (reads_relaidItems (stored || first) children)) room
    rw [ofJson?, hparts]
    exact fits_of_storable hcomplete (by simp [hread])
  | closeTag name params, _, h => by
    refine reads_of_tagged rfl h ?_
    intro _ first room hbody hcomplete hparts
    have hread := reads_closeTag hbody
      (.of_relaid paramsJson_eq_nil (reads_relaidParams (stored || first) params)) room
    rw [ofJson?, hparts]
    exact fits_of_storable hcomplete (by simp [hread])
  | ifTag name params children, _, h => by
    refine reads_of_tagged rfl h ?_
    intro _ first room hbody hcomplete hparts
    have hread := reads_openTag hbody
      (.of_relaid paramsJson_eq_nil (reads_relaidParams (stored || first) params))
      (.of_relaid allJson_eq_nil (reads_relaidItems (stored || first) children)) room
    rw [ofJson?, hparts]
    exact fits_of_storable hcomplete (by simp [hread])
  | identifier name, _, h => by
    refine reads_of_tagged rfl h ?_
    intro _ first room hbody hcomplete hparts
    cases hbody
    rw [ofJson?, hparts]
    exact fits_of_storable hcomplete rfl
  | number n, _, h => by
    refine reads_of_tagged rfl h ?_
    intro _ first room hbody hcomplete hparts
    cases hbody
    rw [ofJson?, hparts]
    exact fits_of_storable hcomplete (by simp [depth])
  | string text, _, h => by
    refine reads_of_tagged rfl h ?_
    intro _ first room hbody hcomplete hparts
    cases hbody
    rw [ofJson?, hparts]
    exact fits_of_storable hcomplete rfl
  | expression items, _, h => by
    refine reads_of_tagged rfl h ?_
    intro _ first room hbody hcomplete hparts
    have hread := reads_sequence hbody (reads_relaidItems (stored || first) items) room
    rw [ofJson?, hparts]
    exact fits_of_storable hcomplete (by simp [hread])
  | wrapped inner, _, h => by
    refine reads_of_tagged rfl h ?_
    intro _ first room hbody hcomplete hparts
    have hread := reads_relaid (stored || first) inner hbody room
    rw [ofJson?, hparts]
    exact fits_of_storable hcomplete (by simp [hread])
  | operator op, _, h => by
    refine reads_of_tagged rfl h ?_
    intro _ first room hbody hcomplete hparts
    cases hbody
    rw [ofJson?, hparts]
    exact fits_of_storable hcomplete (by simp [symbol?, depth])
  | endMark, _, h => by
    cases h with
    | object hmembers hperm =>
      obtain ⟨_, rest, rfl, hkind, hrest⟩ := hmembers.of_cons (by simp [IsOptional])
      cases hrest
      cases hkind
      obtain rfl := List.singleton_perm.1 hperm
      refine .of_succ rfl (by rw [ofJson?]) fun room => ?_
      rw [ofJson?]
      simp [parts?, isPart, kindMember?, symbol?, membersDepth, depth]

theorem reads_relaidItems (stored : Bool) : ∀ (all : List Statement) {items : List Json},
    RelaidItems IsOptional (allJson all) items → Reads (all? stored) (.array items) all
  | [], _, .nil => .of_succ rfl (by rw [all?]; simp) fun _ => rfl
  | s :: rest, _, .cons h hrest => .of_succ rfl (by rw [all?]; simp) fun room => by
    have hrest := reads_relaidItems stored rest hrest (room + 1)
    rw [all?, depth, fits_inside] at hrest
    rw [all?]
    exact mapM_cons_eq_fits (reads_relaid stored s h room) hrest

theorem reads_relaidParams (stored : Bool) :
    ∀ (params : List (Entry Statement)) {items : List Json},
      RelaidItems IsOptional (paramsJson params) items → Reads (params? stored) (.array items) params
  | [], _, .nil => .of_succ rfl (by rw [params?]; simp) fun _ => rfl
  | ⟨_, s⟩ :: rest, _, .cons h hrest => .of_succ rfl (by rw [params?]; simp) fun room => by
    have hrest := reads_relaidParams stored rest hrest (room + 1)
    rw [params?, depth, fits_inside] at hrest
    rw [params?]
    exact mapM_cons_eq_fits (reads_param h (reads_relaid stored s) room) hrest

end

end Statement

namespace Program

open Statement (IsOptional)

variable {program : Program} {j : Json} {text : String}

theorem plain_toJson (program : Program) : program.toJson.Plain :=
  Statement.holds_sequenceBody Json.compositional_plain
    (Statement.holds_allJson Json.compositional_plain program.statements)

theorem load_eq_ok (hparse : Json.parse? text = some j) (hread : ofJson? j = some program) :
    load text = .ok program := by
  rw [load, hparse]
  simp only [hread]

theorem load_eq_error (hparse : Json.parse? text = some j) (hread : ofJson? j = none) :
    load text = .error (.structural "the source does not describe a program") := by
  rw [load, hparse]
  simp only [hread]

theorem ofJson?_of_relaid (h : program.toJson.Relaid IsOptional j) :
    ofJson? j = Json.fits maxDepth j.depth program := by
  have hall := Statement.reads_sequence h
    (Statement.reads_relaidItems false program.statements) maxDepth
  rw [ofJson?, hall, Json.map_fits]

/-- Loading does not depend on the layout of a program: its members may stand in any order at every
level, the parameters and children of a tag may be left out if there are none, and blanks may stand
between the tokens. -/
theorem load_relaid (hj : program.toJson.Relaid IsOptional j) (htext : j.Spells text) :
    if j.depth ≤ 127 then load text = .ok program
    else ∃ message, load text = .error (.structural message) := by
  have hplain : j.Plain := hj.keeps Json.compositional_plain program.plain_toJson
  have hparse : Json.parse? text = some j := Json.parse?_of_spells hplain htext
  have hread : ofJson? j = if j.depth ≤ 127 then some program else none := ofJson?_of_relaid hj
  by_cases h : j.depth ≤ 127
  · simp [h, load, hparse, hread]
  · simp [h, load, hparse, hread]

open Json

theorem load_relaid_bodyFirst :
    load ("\n\x7b \"statements\":[\x7b\"body\":\x7b\"name\":\"x\"\x7d," ++
      "\"kind\":\"CloseTag\"\x7d]\x7d") = .ok ⟨[.closeTag "x" []]⟩ := by
  have hbody : Relaid IsOptional (.ofMembers [("name", .ofString "x"), ("params", .array [])])
      (.ofMembers [("name", .ofString "x")]) :=
    .object (.keep .string (.drop (.inl rfl) .nil)) (.refl _)
  have htag : Relaid IsOptional (Statement.closeTag "x" []).toJson (.ofMembers
      [("body", .ofMembers [("name", .ofString "x")]), ("kind", .ofString "CloseTag")]) :=
    .object (.keep .string (.keep hbody .nil)) (.swap _ _ _)
  have hj : Relaid IsOptional (Program.mk [.closeTag "x" []]).toJson (.ofMembers [("statements",
      .array [.ofMembers [("body", .ofMembers [("name", .ofString "x")]),
        ("kind", .ofString "CloseTag")]])]) :=
    .object (.keep (.array (.cons htag .nil)) .nil) (.refl _)
  refine load_relaid hj ?_
  exact Lexer.Spaced.cons (show ['\n'].all Lexer.isBlank from rfl)
    (.cons (show [' '].all Lexer.isBlank from rfl) (Lexer.spaced_flatMap_chars _))

theorem ofJson?_toJson (program : Program) :
    ofJson? program.toJson = Json.fits maxDepth program.toJson.depth program :=
  ofJson?_of_relaid (.refl _ _)

/-- A program is what its text describes, unless the text nests deeper than 127 levels: then it is
turned down. -/
theorem load_render (program : Program) :
    if program.toJson.depth ≤ 127 then load program.render = .ok program
    else ∃ message, load program.render = .error (.structural message) := by
  have hparse : Json.parse? program.render = some program.toJson :=
    Json.parse?_render program.plain_toJson
  by_cases h : program.toJson.depth ≤ 127
  · have hread : ofJson? program.toJson = some program := by
      rw [ofJson?_toJson, Json.fits, maxDepth, if_pos h]
    simp [h, load, hparse, hread]
  · have hread : ofJson? program.toJson = none := by
      rw [ofJson?_toJson, Json.fits, maxDepth, if_neg h]
    simp [h, load, hparse, hread]

-- An end mark can be wrapped 124 times.
example : (Program.mk [Nat.repeat Statement.wrapped 124 .endMark]).toJson.depth = 127 := by
  decide +kernel

end Program

end TagScript
