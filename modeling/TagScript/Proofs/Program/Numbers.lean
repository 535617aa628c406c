import TagScript.Proofs.Arithmetic
import TagScript.Proofs.Json.Writing
import TagScript.Proofs.Program.Rejection

namespace TagScript

namespace Json.Numeral

def integer (n : Numeral) : Int :=
  if n.negative then -(Digit.value n.whole : Int) else Digit.value n.whole

/-- The numeral has neither fraction nor exponent, it is not the negative zero, and 64 bits hold the
integer that it denotes. -/
structure WritesInt64 (n : Numeral) : Prop where
  fraction : n.fraction = []
  exponent : n.exponent = none
  nonzero : ¬ (n.negative ∧ Digit.value n.whole = 0)
  range : InRange n.integer

theorem writesInt64_iff {n : Numeral} :
    n.WritesInt64 ↔ (n.fraction = [] ∧ n.exponent = none ∧
      ¬ (n.negative ∧ Digit.value n.whole = 0)) ∧ InRange n.integer := by
  constructor
  · intro h
    exact ⟨⟨h.fraction, h.exponent, h.nonzero⟩, h.range⟩
  · rintro ⟨⟨hfraction, hexponent, hnonzero⟩, hrange⟩
    exact ⟨hfraction, hexponent, hnonzero, hrange⟩

theorem toInt64?_eq (n : Numeral) :
    n.toInt64? = if n.fraction = [] ∧ n.exponent = none ∧
      ¬ (n.negative ∧ Digit.value n.whole = 0) then fit? n.integer else none := by
  rw [toInt64?, integer]
  by_cases hform : n.fraction = [] ∧ n.exponent = none
  · cases hsign : n.negative <;> by_cases hzero : Digit.value n.whole = 0 <;>
      simp [hform, hzero]
  · rw [if_neg hform, if_neg fun h => hform ⟨h.1, h.2.1⟩]

theorem toInt64?_eq_none_iff {n : Numeral} : n.toInt64? = none ↔ ¬ n.WritesInt64 := by
  rw [toInt64?_eq, writesInt64_iff]
  split
  · next hform => rw [fit?_eq_none_iff, and_iff_right hform]
  · next hform => exact ⟨fun _ h => hform h.1, fun _ => rfl⟩

theorem toInt64?_eq_some_iff {n : Numeral} {k : Int64} :
    n.toInt64? = some k ↔ n.WritesInt64 ∧ k.toInt = n.integer := by
  constructor
  · intro h
    have hwrites : n.WritesInt64 := by
      by_contra hnot
      rw [toInt64?_eq_none_iff.2 hnot] at h
      cases h
    rw [toInt64?_eq, if_pos (writesInt64_iff.1 hwrites).1] at h
    exact ⟨hwrites, fit?_eq_some_iff.1 h⟩
  · rintro ⟨hwrites, hk⟩
    rw [toInt64?_eq, if_pos (writesInt64_iff.1 hwrites).1, fit?_eq_some_iff.2 hk]

theorem eq_ofInt64 {n : Numeral} {k : Int64} (hproper : Digit.Proper n.whole)
    (hwrites : n.WritesInt64) (hk : k.toInt = n.integer) : n = ofInt64 k := by
  have habs : k.toInt.natAbs = Digit.value n.whole := by
    rw [hk, integer]
    split <;> omega
  have hsign : n.negative = decide (k.toInt < 0) := by
    have hnonzero := hwrites.nonzero
    rw [hk, integer]
    cases hnegative : n.negative with
    | false => simp
    | true =>
      rw [hnegative] at hnonzero
      have hpos : Digit.value n.whole ≠ 0 := fun hzero => hnonzero ⟨rfl, hzero⟩
      simp
      omega
  obtain ⟨negative, whole, fraction, exponent⟩ := n
  obtain ⟨rfl, rfl, -, -⟩ := hwrites
  rw [ofInt64, habs, Digit.ofNat_value hproper, ← hsign]

end Json.Numeral

namespace Json

inductive HasNumber (n : Numeral) : Json → Prop
  | here : HasNumber n (number n)
  | item {items j} (hj : j ∈ items) (h : HasNumber n j) : HasNumber n (array items)
  | member {members name j} (hj : (name, j) ∈ members) (h : HasNumber n j) :
    HasNumber n (object members)

section Tokens

variable {token : Token}

mutual

theorem mem_tokensOnto_of_mem : ∀ (j : Json) {rest : List Token}, token ∈ rest →
    token ∈ j.tokensOnto rest
  | .null, _, h => .tail _ h
  | .bool _, _, h => .tail _ h
  | .number _, _, h => .tail _ h
  | .string _, _, h => .tail _ h
  | .array [], _, h => .tail _ (.tail _ h)
  | .array (j :: items), _, h =>
    .tail _ (mem_tokensOnto_of_mem j (mem_moreItems_of_mem items (.tail _ h)))
  | .object [], _, h => .tail _ (.tail _ h)
  | .object ((_, j) :: members), _, h =>
    .tail _ (.tail _ (.tail _
      (mem_tokensOnto_of_mem j (mem_moreMembers_of_mem members (.tail _ h)))))

theorem mem_moreItems_of_mem : ∀ (items : List Json) {rest : List Token}, token ∈ rest →
    token ∈ moreItems items rest
  | [], _, h => h
  | j :: items, _, h => .tail _ (mem_tokensOnto_of_mem j (mem_moreItems_of_mem items h))

theorem mem_moreMembers_of_mem : ∀ (members : List (Option String × Json)) {rest : List Token},
    token ∈ rest → token ∈ moreMembers members rest
  | [], _, h => h
  | (_, j) :: members, _, h =>
    .tail _ (.tail _ (.tail _ (mem_tokensOnto_of_mem j (mem_moreMembers_of_mem members h))))

end

variable {j : Json} (h : ∀ rest, token ∈ j.tokensOnto rest)

include h

theorem mem_tokensOnto_array {items : List Json} (hj : j ∈ items) (rest : List Token) :
    token ∈ (array items).tokensOnto rest := by
  have hmore : ∀ {items : List Json}, j ∈ items → ∀ rest, token ∈ moreItems items rest := by
    intro items hj rest
    induction items with
    | nil => cases hj
    | cons first items ih =>
      rcases List.mem_cons.1 hj with rfl | hj
      · exact .tail _ (h _)
      · exact .tail _ (mem_tokensOnto_of_mem first (ih hj))
  cases hj with
  | head => exact .tail _ (h _)
  | tail first hj => exact .tail _ (mem_tokensOnto_of_mem first (hmore hj _))

theorem mem_tokensOnto_object {members : List (Option String × Json)} {name : Option String}
    (hj : (name, j) ∈ members) (rest : List Token) :
    token ∈ (object members).tokensOnto rest := by
  have hmore : ∀ {members : List (Option String × Json)}, (name, j) ∈ members →
      ∀ rest, token ∈ moreMembers members rest := by
    intro members hj rest
    induction members with
    | nil => cases hj
    | cons first members ih =>
      rcases List.mem_cons.1 hj with rfl | hj
      · exact .tail _ (.tail _ (.tail _ (h _)))
      · exact .tail _ (.tail _ (.tail _ (mem_tokensOnto_of_mem first.2 (ih hj))))
  cases hj with
  | head => exact .tail _ (.tail _ (.tail _ (h _)))
  | tail first hj =>
    exact .tail _ (.tail _ (.tail _ (mem_tokensOnto_of_mem first.2 (hmore hj _))))

end Tokens

theorem Lexer.Written.exists_numeral {n : Numeral} {tokens : List Token} {text : List Char}
    (h : Written tokens text) (hn : .number n ∈ tokens) : ∃ chars, n.Written chars := by
  induction h with
  | nil => cases hn
  | @numeral _ m chars _ _ _ hm _ ih =>
    rcases List.mem_cons.1 hn with heq | hn
    · cases heq
      exact ⟨chars, hm⟩
    · exact ih hn
  | token _ htoken _ ih =>
    rcases List.mem_cons.1 hn with rfl | hn
    · cases htoken
    · exact ih hn

theorem RelaidMembers.exists_of_mem {optional : String → Prop} {name : Option String} {j : Json} :
    ∀ {members kept : List (Option String × Json)}, RelaidMembers optional members kept →
      (name, j) ∈ members → j ≠ array [] → ∃ j', (name, j') ∈ kept ∧ Relaid optional j j'
  | _, _, .keep hfirst hrest, hj, hne => by
    rcases List.mem_cons.1 hj with heq | hj
    · cases heq
      exact ⟨_, List.mem_cons_self, hfirst⟩
    · obtain ⟨j', hj', hrelaid⟩ := hrest.exists_of_mem hj hne
      exact ⟨j', List.mem_cons_of_mem _ hj', hrelaid⟩
  | _, _, .drop _ hrest, hj, hne => by
    rcases List.mem_cons.1 hj with heq | hj
    · cases heq
      exact absurd rfl hne
    · exact hrest.exists_of_mem hj hne

namespace HasNumber

variable {n : Numeral} {j : Json}

theorem mem_tokensOnto (h : HasNumber n j) (rest : List Token) :
    .number n ∈ j.tokensOnto rest := by
  induction h generalizing rest with
  | here => exact .head _
  | item hj _ ih => exact mem_tokensOnto_array ih hj rest
  | member hj _ ih => exact mem_tokensOnto_object ih hj rest

theorem relaid {optional : String → Prop} {j' : Json} (h : HasNumber n j)
    (hrelaid : Relaid optional j j') : HasNumber n j' := by
  induction h generalizing j' with
  | here =>
    cases hrelaid
    exact .here
  | item hj _ ih =>
    cases hrelaid with
    | array hitems =>
      obtain ⟨j', hj', hrelaid⟩ := hitems.exists_of_mem hj
      exact .item hj' (ih hrelaid)
  | @member _ _ inner hj h ih =>
    cases hrelaid with
    | object hmembers hperm =>
      have hne : inner ≠ array [] := by
        rintro rfl
        cases h with
        | item hj => cases hj
      obtain ⟨j', hj', hrelaid⟩ := hmembers.exists_of_mem hj hne
      exact .member (hperm.mem_iff.1 hj') (ih hrelaid)

theorem ofMembers {members : List (String × Json)} (name : String) (hj : (name, j) ∈ members)
    (h : HasNumber n j) : HasNumber n (.ofMembers members) :=
  .member (List.mem_map.2 ⟨(name, j), hj, rfl⟩) h

theorem proper (h : HasNumber n j) {text : String} (htext : j.WrittenAs text) :
    Digit.Proper n.whole := by
  obtain ⟨chars, hchars⟩ := htext.exists_numeral (h.mem_tokensOnto [])
  exact hchars.proper

end HasNumber

end Json

namespace Statement

theorem hasNumber_tagged {n : Json.Numeral} {j : Json} (kind : Kind) (h : j.HasNumber n) :
    (tagged kind j).HasNumber n :=
  .ofMembers "body" (by simp) h

theorem hasNumber_fillJson {n : Json.Numeral} {j : Json} (frame : Frame) (h : j.HasNumber n) :
    (frame.fillJson j).HasNumber n := by
  have hchildren (before after : List Statement) :
      (Json.array (allJson before ++ j :: allJson after)).HasNumber n := .item (by simp) h
  have hparam (key : String) : (paramJson key j).HasNumber n := .ofMembers "value" (by simp) h
  have hparams (before : List (Entry Statement)) (key : String) (after : List (Entry Statement)) :
      (Json.array (paramsJson before ++ paramJson key j :: paramsJson after)).HasNumber n :=
    .item (by simp) (hparam key)
  cases frame with
  | openParam _ before key after | ifParam _ before key after | closeParam _ before key after =>
    exact hasNumber_tagged _ (.ofMembers "params" (by simp) (hparams before key after))
  | openChild _ _ before after | ifChild _ _ before after =>
    exact hasNumber_tagged _ (.ofMembers "children" (by simp) (hchildren before after))
  | item before after =>
    exact hasNumber_tagged _ (.ofMembers "statements" (by simp) (hchildren before after))
  | wrapper => exact hasNumber_tagged _ h

theorem hasNumber_wayFillJson {n : Json.Numeral} {j : Json} (way : Way) (h : j.HasNumber n) :
    (way.fillJson j).HasNumber n := by
  induction way generalizing j with
  | nil => exact h
  | cons frame rest ih => exact ih (hasNumber_fillJson frame h)

theorem hasNumber_document {n : Json.Numeral} {j : Json} (place : Program.Place)
    (h : j.HasNumber n) : (place.document j).HasNumber n :=
  .ofMembers "statements" List.mem_cons_self
    (.item (List.mem_append_right _ List.mem_cons_self) (hasNumber_wayFillJson place.way h))

theorem refused_number {n : Json.Numeral} (h : n.toInt64? = none) :
    Refused ofJson? (tagged .number (.number n)) := by
  refine .of_succ (fun _ _ => by rw [ofJson?]) fun j' hrelaid stored room => ?_
  obtain ⟨body, first, hbody, -, hparts⟩ := exists_parts_of_relaid hrelaid
  cases hbody
  rw [ofJson?, hparts]
  simp [h]

end Statement

namespace Program

open Statement (IsOptional)

/-- A number token in the place of a number, at any place of a program and in any layout. The
program is accepted exactly if the token writes out a 64-bit integer and the text does not nest too
deep, and then the number is that integer. -/
theorem load_numeral (place : Place) {n : Json.Numeral} {j : Json}
    (hj : (place.document (Statement.tagged .number (.number n))).Relaid IsOptional j)
    {text : String} (htext : j.WrittenAs text) :
    ((∃ program, load text = .ok program) ↔ n.WritesInt64 ∧ j.depth ≤ 127) ∧
      (∀ program, load text = .ok program →
        ∃ k : Int64, k.toInt = n.integer ∧ program = place.program (.number k)) ∧
      ((∀ program, load text ≠ .ok program) →
        ∃ message, load text = .error (.structural message)) := by
  have hparse : Json.parse? text = some j := Json.parse?_of_writtenAs htext
  cases hint : n.toInt64? with
  | none =>
    have hnot : ¬ n.WritesInt64 := Json.Numeral.toInt64?_eq_none_iff.1 hint
    have hload := load_eq_error hparse
      (ofJson?_of_refused (Statement.refused_number hint) place hj)
    simp [hload, hnot]
  | some k =>
    obtain ⟨hwrites, hk⟩ := Json.Numeral.toInt64?_eq_some_iff.1 hint
    have hnumber : (place.document (Statement.tagged .number (.number n))).HasNumber n :=
      Statement.hasNumber_document place (Statement.hasNumber_tagged _ .here)
    have hdocument : place.document (Statement.tagged .number (.number n)) =
        (place.program (.number k)).toJson := by
      rw [Json.Numeral.eq_ofInt64 ((hnumber.relaid hj).proper htext) hwrites hk]
      exact place.document_toJson (.number k)
    rw [hdocument] at hj
    have hread : ofJson? j = if j.depth ≤ 127 then some (place.program (.number k)) else none :=
      ofJson?_of_relaid hj
    by_cases hdepth : j.depth ≤ 127
    · rw [if_pos hdepth] at hread
      have hload := load_eq_ok hparse hread
      refine ⟨⟨fun _ => ⟨hwrites, hdepth⟩, fun _ => ⟨_, hload⟩⟩, ?_, fun h => absurd hload (h _)⟩
      intro program hprogram
      rw [hload] at hprogram
      exact ⟨k, hk, (Except.ok.inj hprogram).symm⟩
    · rw [if_neg hdepth] at hread
      have hload := load_eq_error hparse hread
      simp [hload, hdepth]

open Json

theorem load_numeral_limits :
    let text (token : String) := String.ofList
      ("\x7b\"statements\":[\x7b\"kind\":\"Number\",\"body\":".toList ++
        (token.toList ++ "\x7d]\x7d".toList))
    load (text "-9223372036854775808") = .ok ⟨[.number Int64.minValue]⟩ ∧
      (∃ message, load (text "9223372036854775808") = .error (.structural message)) ∧
      ∃ message, load (text "1E+2") = .error (.structural message) := by
  intro text
  let place : Place := ⟨[], [], []⟩
  let document (n : Numeral) := place.document (Statement.tagged .number (.number n))
  have htoken {token : Token} {tokens : List Token} {chars : List Char}
      (h : token.isNumeral = false) (hrest : Lexer.Written tokens chars) :
      Lexer.Written (token :: tokens) (token.chars ++ chars) :=
    @Lexer.Written.token [] _ _ _ rfl h hrest
  have hclose : Lexer.Written [.closeObject, .closeArray, .closeObject] "\x7d]\x7d".toList :=
    htoken rfl (htoken rfl (htoken rfl (.nil rfl)))
  have htext {n : Numeral} {token : String} (hn : n.Written token.toList) :
      (document n).WrittenAs (text token) := by
    rw [WrittenAs, String.toList_ofList]
    refine htoken rfl (htoken rfl (htoken rfl (htoken rfl (htoken rfl (htoken rfl (htoken rfl
      (htoken rfl (htoken rfl (htoken rfl (htoken rfl ?_))))))))))
    exact @Lexer.Written.numeral [] _ _ _ _ rfl hn hclose
  have hload {n : Numeral} {token : String} (hn : n.Written token.toList) :=
    load_numeral place (.refl _ _) (htext hn)
  let digits (text : String) := text.toList.filterMap Digit.ofChar?
  have hproper : Digit.Proper (digits "9223372036854775808") := ⟨_, _, rfl, by decide⟩
  have hmin : (Numeral.mk true (digits "9223372036854775808") [] none).Written
      "-9223372036854775808".toList := .intro hproper .missing
  have hmax : (Numeral.mk false (digits "9223372036854775808") [] none).Written
      "9223372036854775808".toList := .intro hproper .missing
  have hpower : (Numeral.mk false (digits "1") [] (some ⟨false, digits "2"⟩)).Written
      "1E+2".toList := .intro ⟨_, _, rfl, by decide⟩ (.plus (.inr rfl) (by decide))
  refine ⟨?_, ?_, ?_⟩
  · obtain ⟨haccepted, hnumber, -⟩ := hload hmin
    obtain ⟨program, hprogram⟩ := haccepted.2 ⟨⟨rfl, rfl, by decide, by decide⟩, by decide +kernel⟩
    obtain ⟨k, hk, rfl⟩ := hnumber program hprogram
    rw [hprogram, Int64.toInt_inj.1 (hk.trans (show _ = Int64.minValue.toInt by decide))]
    rfl
  · obtain ⟨haccepted, -, hrefused⟩ := hload hmax
    refine hrefused fun program hprogram => ?_
    exact absurd (haccepted.1 ⟨program, hprogram⟩).1.range (by decide)
  · obtain ⟨haccepted, -, hrefused⟩ := hload hpower
    refine hrefused fun program hprogram => ?_
    exact absurd (haccepted.1 ⟨program, hprogram⟩).1.exponent (by decide)

end Program

end TagScript
