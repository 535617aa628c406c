import TagScript.Proofs.Noninterference
import TagScript.Proofs.Program.Layout

namespace TagScript

theorem Printer.append_empty (p : Printer) : p.append "" = p := by
  cases p <;> simp [append]

theorem runSource_printers (source : String) (scoping : Scoping) (p q : Printer) :
    (runSource source scoping p).1 = (runSource source scoping q).1 ∧
      ∃ text, (runSource source scoping p).2 = p.append text ∧
        (runSource source scoping q).2 = q.append text := by
  rw [runSource, runSource]
  cases Program.load source with
  | error fault => exact ⟨rfl, "", p.append_empty.symm, q.append_empty.symm⟩
  | ok program =>
    let host : Host := ⟨scoping, .none⟩
    have hrun : (Statement.evalAll host program.statements).UniformOver (·.bare = ·.bare) :=
      (Statement.congruence_uniform host).evalAll program.statements
    obtain ⟨hresult, new, text, hp, hq⟩ := @Run.UniformOver.exec_eq _ _ _ hrun
      (Interpreter.build host p []).machine (Interpreter.build host q []).machine rfl
    exact ⟨hresult, text, congrArg Machine.printer hp, congrArg Machine.printer hq⟩

namespace Outcome

theorem fromUTF8?_toUTF8 (text : String) : String.fromUTF8? text.toUTF8 = some text := by
  rw [String.fromUTF8?, String.toUTF8_eq_toByteArray, dif_pos text.isValidUTF8]
  rfl

def ofRun : Except Fault Unit × Printer → Outcome
  | (.ok (), printer) => ⟨0, printer.captured, ""⟩
  | (.error fault, printer) => ⟨1, printer.captured, fault.report ++ "\n"⟩

theorem ofSource_eq (source : String) (scoping : Scoping) :
    ofSource source scoping = ofRun (runSource source scoping (.buffer "")) := by
  obtain ⟨hresult, text, hconsole, hbuffer⟩ :=
    runSource_printers source scoping (.console "") (.buffer "")
  rw [ofSource]
  generalize runSource source scoping (.console "") = console at hresult hconsole ⊢
  generalize runSource source scoping (.buffer "") = buffer at hresult hbuffer ⊢
  obtain ⟨result, printer⟩ := console
  obtain ⟨_, _⟩ := buffer
  obtain rfl : result = _ := hresult
  obtain rfl : printer = _ := hconsole
  obtain rfl := hbuffer
  cases result <;> rfl

theorem ofFile_toUTF8 (path : String) (scoping : Scoping) (source : String) :
    ofFile path scoping (.ok source.toUTF8) =
      ofRun (runSource source scoping (.buffer "")) := by
  rw [ofFile, fromUTF8?_toUTF8]
  exact ofSource_eq source scoping

end Outcome

namespace Request

def IsAccepted (arg : String) : Prop := isOption arg → arg = isolatedFlag

inductive Asks (args : List String) : Request → Prop
  | badOption {before option after} (hargs : args = before ++ option :: after)
    (hbefore : ∀ arg ∈ before, IsAccepted arg) (hoption : ¬ IsAccepted option) :
    Asks args (badOption option)
  | missingPath (h : ∀ arg ∈ args, arg = isolatedFlag) : Asks args missingPath
  | run {before path after} (hargs : args = before ++ path :: after)
    (haccepted : ∀ arg ∈ args, IsAccepted arg) (hbefore : ∀ arg ∈ before, arg = isolatedFlag)
    (hpath : path ≠ isolatedFlag) :
    Asks args (run path (if isolatedFlag ∈ args then .isolated else .lexical))

theorem isOption_isolatedFlag : isOption isolatedFlag = true := by decide

def isUnknown (arg : String) : Bool := isOption arg && arg ≠ isolatedFlag

theorem isAccepted_iff {arg : String} : IsAccepted arg ↔ isUnknown arg = false := by
  cases h : isOption arg <;> simp [IsAccepted, isUnknown, h]

section Asks

variable {args : List String} {request : Request}

theorem ofRunArgs_eq (args : List String) :
    ofRunArgs args =
      match args.find? isUnknown with
      | some option => badOption option
      | none =>
        match args.find? (fun arg => !isOption arg) with
        | some path => run path (if isolatedFlag ∈ args then .isolated else .lexical)
        | none => missingPath := rfl

theorem find?_unknown_eq_none_iff :
    args.find? isUnknown = none ↔ ∀ arg ∈ args, IsAccepted arg := by
  simp [isAccepted_iff]

theorem Asks.eq (h : Asks args request) : ofRunArgs args = request := by
  cases h with
  | @badOption before option after hargs hbefore hoption =>
    have hfind : args.find? isUnknown = some option := by
      rw [List.find?_eq_some_iff_append]
      rw [isAccepted_iff, Bool.not_eq_false] at hoption
      exact ⟨hoption, before, after, hargs, by simpa [isAccepted_iff] using hbefore⟩
    rw [ofRunArgs_eq, hfind]
  | missingPath h =>
    have hunknown : args.find? isUnknown = none :=
      find?_unknown_eq_none_iff.2 fun arg harg _ => h arg harg
    have hpath : args.find? (fun arg => !isOption arg) = none := by
      rw [List.find?_eq_none]
      intro arg harg
      rw [h arg harg, isOption_isolatedFlag]
      decide
    rw [ofRunArgs_eq, hunknown, hpath]
  | @run before path after hargs haccepted hbefore hpath =>
    have hunknown : args.find? isUnknown = none := find?_unknown_eq_none_iff.2 haccepted
    have hfind : args.find? (fun arg => !isOption arg) = some path := by
      rw [List.find?_eq_some_iff_append]
      refine ⟨?_, before, after, hargs, fun arg harg => ?_⟩
      · have hmem : path ∈ args := by simp [hargs]
        simpa using mt (haccepted path hmem) hpath
      · rw [hbefore arg harg, isOption_isolatedFlag]
        rfl
    rw [ofRunArgs_eq, hunknown, hfind]

theorem asks_ofRunArgs (args : List String) : Asks args (ofRunArgs args) := by
  rw [ofRunArgs_eq]
  split
  · next option hfind =>
    obtain ⟨hoption, before, after, hargs, hbefore⟩ := List.find?_eq_some_iff_append.1 hfind
    refine .badOption hargs (fun arg harg => ?_) ?_
    · rw [isAccepted_iff]
      simpa using hbefore arg harg
    · rw [isAccepted_iff, Bool.not_eq_false]
      exact hoption
  · next hfind =>
    have haccepted : ∀ arg ∈ args, IsAccepted arg := find?_unknown_eq_none_iff.1 hfind
    split
    · next path hpath =>
      obtain ⟨hoption, before, after, hargs, hbefore⟩ := List.find?_eq_some_iff_append.1 hpath
      refine .run hargs haccepted (fun arg harg => ?_) ?_
      · exact haccepted arg (by simp [hargs, harg]) (by simpa using hbefore arg harg)
      · rintro rfl
        rw [isOption_isolatedFlag] at hoption
        cases hoption
    · next hpath =>
      refine .missingPath fun arg harg => haccepted arg harg ?_
      simpa using List.find?_eq_none.1 hpath arg harg

theorem find?_filter_flag {p : String → Bool} (hp : p isolatedFlag = false) (args : List String) :
    (args.filter (· ≠ isolatedFlag)).find? p = args.find? p := by
  rw [List.find?_filter]
  congr 1
  funext arg
  by_cases h : arg = isolatedFlag <;> simp [h, hp]

theorem ofRunArgs_congr {others : List String}
    (h : others.filter (· ≠ isolatedFlag) = args.filter (· ≠ isolatedFlag))
    (hflag : isolatedFlag ∈ others ↔ isolatedFlag ∈ args) : ofRunArgs others = ofRunArgs args := by
  have hfind {p : String → Bool} (hp : p isolatedFlag = false) : others.find? p = args.find? p := by
    rw [← find?_filter_flag hp others, h, find?_filter_flag hp args]
  have hunknown : isUnknown isolatedFlag = false := by simp [isUnknown]
  have hpath : (!isOption isolatedFlag) = false := by rw [isOption_isolatedFlag, Bool.not_true]
  rw [ofRunArgs_eq, ofRunArgs_eq, hfind hunknown, @hfind (!isOption ·) hpath]
  simp only [hflag]

end Asks

/-- A run with any arguments. An unknown option is reported and no file is read; neither is one if
no path is given. Otherwise the file at the first path is read, and if it holds a text the outcome
is that of running the text with a buffer: what the buffer holds is written, and a fault is
reported. The flag may be given at any place and repeated. -/
theorem perform_run {m : Type → Type} [Monad m]
    (read : String → m (Except ReadFailure ByteArray)) (args : List String) :
    let command (args : List String) := (ofArgs ("run" :: args)).perform read
    (∃ request, Asks args request) ∧
      (∀ option, Asks args (badOption option) →
        command args = pure ⟨1, "", s!"error: unknown option '{option}'\n"⟩) ∧
      (Asks args missingPath → command args = pure
        ⟨1, "", "error: missing file path\nUsage: htc run <program.json> [--isolated-scopes]\n"⟩) ∧
      (∀ path scoping, Asks args (run path scoping) →
        command args = do return .ofFile path scoping (← read path)) ∧
      (∀ path scoping source, Outcome.ofFile path scoping (.ok source.toUTF8) =
        .ofRun (runSource source scoping (.buffer ""))) ∧
      ∀ others, others.filter (· ≠ isolatedFlag) = args.filter (· ≠ isolatedFlag) →
        (isolatedFlag ∈ others ↔ isolatedFlag ∈ args) → command others = command args := by
  intro command
  have hcommand (args : List String) : command args = (ofRunArgs args).perform read := rfl
  refine ⟨⟨_, asks_ofRunArgs args⟩, ?_, ?_, ?_, Outcome.ofFile_toUTF8, ?_⟩
  · intro option h
    rw [hcommand, h.eq]
    rfl
  · intro h
    rw [hcommand, h.eq]
    rfl
  · intro path scoping h
    rw [hcommand, h.eq]
    rfl
  · intro others hothers hflag
    rw [hcommand, hcommand, ofRunArgs_congr hothers hflag]

theorem perform_run_partial_output :
    let program : Program := ⟨[.closeTag "Print" [⟨"text", .string "hi"⟩], .identifier "y"]⟩
    let read (path : String) : Id (Except ReadFailure ByteArray) :=
      pure (if path = "a.json" then .ok program.render.toUTF8 else .error .missing)
    let command (args : List String) := (ofArgs ("run" :: args)).perform read
    let args := [isolatedFlag, "a.json", "b.json"]
    let others := ["a.json", isolatedFlag, "b.json", isolatedFlag]
    let option := "-v"
    Asks args (run "a.json" .isolated) ∧
      command args = pure ⟨1, "hi\n", "[RuntimeError] 'y' is undefined\n"⟩ ∧
      command others = command args ∧
      Asks ["a.json", option, isolatedFlag, "-w"] (badOption option) ∧
      command ["a.json", option, isolatedFlag, "-w"] =
        pure ⟨1, "", s!"error: unknown option '{option}'\n"⟩ := by
  intro program read command args others option
  have hasks : Asks args (run "a.json" .isolated) := asks_ofRunArgs args
  have hbad : Asks ["a.json", option, isolatedFlag, "-w"] (badOption option) :=
    asks_ofRunArgs ["a.json", "-v", isolatedFlag, "-w"]
  obtain ⟨-, -, -, hrun, hfile, hothers⟩ := perform_run read args
  obtain ⟨-, hoption, -⟩ := perform_run read ["a.json", option, isolatedFlag, "-w"]
  have hload : Program.load program.render = .ok program :=
    Program.load_eq_ok (Json.parse?_render program.plain_toJson) program.ofJson?_toJson
  have houtcome : Outcome.ofRun (runSource program.render .isolated (.buffer "")) =
      ⟨1, "hi\n", "[RuntimeError] 'y' is undefined\n"⟩ := by
    rw [runSource, hload]
    rfl
  have hcommand : command args = pure ⟨1, "hi\n", "[RuntimeError] 'y' is undefined\n"⟩ := by
    have hread : read "a.json" = pure (.ok program.render.toUTF8) := by simp [read]
    rw [← houtcome, ← hfile "a.json" .isolated]
    exact (hrun "a.json" .isolated hasks).trans (by rw [hread, pure_bind])
  exact ⟨hasks, hcommand, hothers others (by decide) (by decide), hbad, hoption option hbad⟩

end Request

end TagScript
