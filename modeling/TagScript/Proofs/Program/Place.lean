import TagScript.Program
import TagScript.Proofs.Truthful

/-!
Places in a program where a statement stands, at any depth. A place is the way down to it, with all
that stands beside the way. Putting a statement there gives a program, and putting a document there
gives the document of that program with one part exchanged.
-/

namespace TagScript

namespace Statement

inductive Frame
  | openParam (name : String) (before : List (Entry Statement)) (key : String)
    (after : List (Entry Statement)) (children : List Statement)
  | openChild (name : String) (params : List (Entry Statement)) (before after : List Statement)
  | closeParam (name : String) (before : List (Entry Statement)) (key : String)
    (after : List (Entry Statement))
  | ifParam (name : String) (before : List (Entry Statement)) (key : String)
    (after : List (Entry Statement)) (children : List Statement)
  | ifChild (name : String) (params : List (Entry Statement)) (before after : List Statement)
  | item (before after : List Statement)
  | wrapper

namespace Frame

def fill : Frame → Statement → Statement
  | openParam name before key after children, s =>
    openTag name (before ++ ⟨key, s⟩ :: after) children
  | openChild name params before after, s => openTag name params (before ++ s :: after)
  | closeParam name before key after, s => closeTag name (before ++ ⟨key, s⟩ :: after)
  | ifParam name before key after children, s => ifTag name (before ++ ⟨key, s⟩ :: after) children
  | ifChild name params before after, s => ifTag name params (before ++ s :: after)
  | item before after, s => expression (before ++ s :: after)
  | wrapper, s => wrapped s

end Frame

section Documents

def paramJson (key : String) (j : Json) : Json := .ofMembers [("key", .ofString key), ("value", j)]

def openBody (name : String) (params children : List Json) : Json :=
  .ofMembers [("name", .ofString name), ("params", .array params), ("children", .array children)]

def closeBody (name : String) (params : List Json) : Json :=
  .ofMembers [("name", .ofString name), ("params", .array params)]

def sequenceBody (items : List Json) : Json := .ofMembers [("statements", .array items)]

end Documents

def Frame.fillJson : Frame → Json → Json
  | openParam name before key after children, j => tagged .openTag
    (openBody name (paramsJson before ++ paramJson key j :: paramsJson after) (allJson children))
  | openChild name params before after, j => tagged .openTag
    (openBody name (paramsJson params) (allJson before ++ j :: allJson after))
  | closeParam name before key after, j => tagged .closeTag
    (closeBody name (paramsJson before ++ paramJson key j :: paramsJson after))
  | ifParam name before key after children, j => tagged .ifTag
    (openBody name (paramsJson before ++ paramJson key j :: paramsJson after) (allJson children))
  | ifChild name params before after, j => tagged .ifTag
    (openBody name (paramsJson params) (allJson before ++ j :: allJson after))
  | item before after, j => tagged .expression (sequenceBody (allJson before ++ j :: allJson after))
  | wrapper, j => tagged .wrapped j

theorem allJson_append (before after : List Statement) :
    allJson (before ++ after) = allJson before ++ allJson after := by
  induction before with
  | nil => rfl
  | cons s rest ih => simp [allJson, ih]

theorem paramsJson_append (before after : List (Entry Statement)) :
    paramsJson (before ++ after) = paramsJson before ++ paramsJson after := by
  induction before with
  | nil => rfl
  | cons e rest ih => simp [paramsJson, ih]

theorem Frame.fillJson_toJson (frame : Frame) (s : Statement) :
    frame.fillJson s.toJson = (frame.fill s).toJson := by
  cases frame <;>
    simp [fillJson, fill, toJson, openBody, closeBody, sequenceBody, paramJson, allJson_append,
      paramsJson_append, allJson, paramsJson]

abbrev Way := List Frame

namespace Way

def fill (way : Way) (s : Statement) : Statement := way.foldl (fun s frame => frame.fill s) s

def fillJson (way : Way) (j : Json) : Json := way.foldl (fun j frame => frame.fillJson j) j

theorem fill_concat (way : Way) (frame : Frame) (s : Statement) :
    fill (way ++ [frame]) s = frame.fill (way.fill s) :=
  List.foldl_append

theorem fillJson_toJson (way : Way) (s : Statement) :
    way.fillJson s.toJson = (way.fill s).toJson := by
  induction way generalizing s with
  | nil => rfl
  | cons frame rest ih =>
    rw [fillJson, List.foldl_cons, frame.fillJson_toJson]
    exact ih (frame.fill s)

end Way

mutual

theorem exists_way_of_mem_nodes {t : Statement} :
    ∀ s : Statement, t ∈ s.nodes → ∃ way : Way, way.fill t = s
  | openTag name params children, h => by
    rw [nodes, List.mem_cons, List.mem_append] at h
    rcases h with rfl | h | h
    · exact ⟨[], rfl⟩
    · obtain ⟨before, key, after, way, rfl⟩ := exists_way_of_mem_paramNodes params h
      exact ⟨way ++ [.openParam name before key after children], way.fill_concat _ t⟩
    · obtain ⟨before, after, way, rfl⟩ := exists_way_of_mem_allNodes children h
      exact ⟨way ++ [.openChild name params before after], way.fill_concat _ t⟩
  | closeTag name params, h => by
    rw [nodes, List.mem_cons] at h
    rcases h with rfl | h
    · exact ⟨[], rfl⟩
    · obtain ⟨before, key, after, way, rfl⟩ := exists_way_of_mem_paramNodes params h
      exact ⟨way ++ [.closeParam name before key after], way.fill_concat _ t⟩
  | ifTag name params children, h => by
    rw [nodes, List.mem_cons, List.mem_append] at h
    rcases h with rfl | h | h
    · exact ⟨[], rfl⟩
    · obtain ⟨before, key, after, way, rfl⟩ := exists_way_of_mem_paramNodes params h
      exact ⟨way ++ [.ifParam name before key after children], way.fill_concat _ t⟩
    · obtain ⟨before, after, way, rfl⟩ := exists_way_of_mem_allNodes children h
      exact ⟨way ++ [.ifChild name params before after], way.fill_concat _ t⟩
  | expression items, h => by
    rw [nodes, List.mem_cons] at h
    rcases h with rfl | h
    · exact ⟨[], rfl⟩
    · obtain ⟨before, after, way, rfl⟩ := exists_way_of_mem_allNodes items h
      exact ⟨way ++ [.item before after], way.fill_concat _ t⟩
  | wrapped inner, h => by
    rw [nodes, List.mem_cons] at h
    rcases h with rfl | h
    · exact ⟨[], rfl⟩
    · obtain ⟨way, rfl⟩ := exists_way_of_mem_nodes inner h
      exact ⟨way ++ [.wrapper], way.fill_concat _ t⟩
  | identifier _, h => ⟨[], List.mem_singleton.1 h⟩
  | number _, h => ⟨[], List.mem_singleton.1 h⟩
  | string _, h => ⟨[], List.mem_singleton.1 h⟩
  | operator _, h => ⟨[], List.mem_singleton.1 h⟩
  | endMark, h => ⟨[], List.mem_singleton.1 h⟩

theorem exists_way_of_mem_allNodes {t : Statement} :
    ∀ all : List Statement, t ∈ allNodes all →
      ∃ before after, ∃ way : Way, before ++ way.fill t :: after = all
  | s :: rest, h => by
    rw [allNodes, List.mem_append] at h
    rcases h with h | h
    · obtain ⟨way, rfl⟩ := exists_way_of_mem_nodes s h
      exact ⟨[], rest, way, rfl⟩
    · obtain ⟨before, after, way, rfl⟩ := exists_way_of_mem_allNodes rest h
      exact ⟨s :: before, after, way, rfl⟩

theorem exists_way_of_mem_paramNodes {t : Statement} :
    ∀ params : List (Entry Statement), t ∈ paramNodes params →
      ∃ before key after, ∃ way : Way, before ++ ⟨key, way.fill t⟩ :: after = params
  | ⟨key, s⟩ :: rest, h => by
    rw [paramNodes, List.mem_append] at h
    rcases h with h | h
    · obtain ⟨way, rfl⟩ := exists_way_of_mem_nodes s h
      exact ⟨[], key, rest, way, rfl⟩
    · obtain ⟨before, key', after, way, rfl⟩ := exists_way_of_mem_paramNodes rest h
      exact ⟨⟨key, s⟩ :: before, key', after, way, rfl⟩

end

end Statement

namespace Program

structure Place where
  before : List Statement
  way : Statement.Way
  after : List Statement

namespace Place

def program (place : Place) (s : Statement) : Program :=
  ⟨place.before ++ place.way.fill s :: place.after⟩

def document (place : Place) (j : Json) : Json :=
  Statement.sequenceBody
    (Statement.allJson place.before ++ place.way.fillJson j :: Statement.allJson place.after)

theorem document_toJson (place : Place) (s : Statement) :
    place.document s.toJson = (place.program s).toJson := by
  rw [document, place.way.fillJson_toJson, toJson, program, Statement.allJson_append]
  rfl

end Place

theorem exists_place_of_mem_nodes {program : Program} {s : Statement}
    (h : s ∈ Statement.allNodes program.statements) :
    ∃ place : Place, place.program s = program := by
  obtain ⟨before, after, way, hstatements⟩ := Statement.exists_way_of_mem_allNodes _ h
  exact ⟨⟨before, way, after⟩, congrArg Program.mk hstatements⟩

end Program

end TagScript
