/-
# A session and the script put together from it

Sources that are answered one after the other in a session can be put together and run as one
script. The two runs do not go side by side: a session gives up what a source ends with before
it goes on to the next, while a script holds the value of each statement until the next one has
ended, so frames are released at different times. But where frames last, a program that is put
together from two is run by running one after the other, and neither run can be told from that
one unless it calls a function whose home is gone. Literals have the same places in both, since
a session goes on counting statements where it stopped.

That the text put together is read as the statements of its parts is a matter of the semicolons
at their ends, outside of every brace.
-/

import Mathlib
import Monkey.Proofs.Grammar.Braces
import Monkey.Proofs.Grammar.Completeness
import Monkey.Proofs.Ideal.Refinement
import Monkey.Proofs.Parse.Continuation
import Monkey.Shell.Basic

namespace Monkey

/-! ## Programs put together -/

namespace Ideal

variable {call : Closure → List Value → Eval Value} {env : FrameId}

theorem evalBlock_append (site : Site) (index : Nat) (before : Value) (first second : Block) :
    evalBlock call env site index before (first ++ second) =
      evalBlock call env site index before first >>= fun value =>
        evalBlock call env site (index + first.length) value second := by
  induction first generalizing index before with
  | nil => rfl
  | cons stmt stmts ih =>
      simp only [List.cons_append, evalBlock, ih, bind_assoc, List.length_cons,
        Nat.add_assoc, Nat.add_comm 1]

/-- What came before some statements is forgotten by the first of them. -/
theorem evalBlock_eq_of_ne_nil {stmts : Block} (nonempty : stmts ≠ []) (site : Site) (index : Nat)
    (before other : Value) :
    evalBlock call env site index before stmts = evalBlock call env site index other stmts := by
  cases stmts with
  | nil => exact absurd rfl nonempty
  | cons stmt stmts => rw [evalBlock, evalBlock]

/-- A program that has a value hands over to the statements behind it. -/
theorem run_append {depth : Nat} {base : Nat} {first second : Program} {heap middle : Heap}
    {value : Value} (isFirst : run depth env base first heap = (.value value, middle))
    (nonempty : second ≠ []) :
    run depth env base (first ++ second) heap =
      run depth env (base + first.length) second middle := by
  have hasValue : evalBlock (apply depth) env [] base .null first heap = .ok value middle := by
    rw [run] at isFirst
    cases reached : evalBlock (apply depth) env [] base .null first heap with
    | ok result after =>
        rw [reached] at isFirst
        cases isFirst
        rfl
    | error signal after =>
        rw [reached] at isFirst
        cases signal <;> cases isFirst
  have continued : evalBlock (apply depth) env [] base .null (first ++ second) heap =
      evalBlock (apply depth) env [] (base + first.length) .null second middle := by
    rw [evalBlock_append, evalBlock_eq_of_ne_nil nonempty _ _ .null value]
    show EStateM.bind _ _ heap = _
    rw [EStateM.bind, hasValue]
  rw [run, run, continued]

end Ideal

/-! ## Sessions -/

/-- A value is shown without what it has captured. -/
theorem Value.inspect_eq_of_ideal {first second : Value} (same : first.ideal = second.ideal) :
    first.inspect = second.inspect := by
  cases first with
  | function closure =>
      cases second with
      | function other =>
          have sameParameters : closure.parameters = other.parameters :=
            congrArg Ideal.Closure.parameters (Ideal.Value.function.inj same)
          rw [inspect, inspect, Closure.inspect, Closure.inspect, sameParameters]
      | _ => cases same
  | _ =>
      cases second <;> cases same
      rfl

theorem Outcome.shown_eq_of_ideal {first second : Outcome} (same : first.ideal = second.ideal) :
    first.shown = second.shown := by
  cases first with
  | value result =>
      cases second with
      | value other => exact Value.inspect_eq_of_ideal (Ideal.Outcome.value.inj same)
      | _ => cases same
  | returned result =>
      cases second with
      | returned other => exact Value.inspect_eq_of_ideal (Ideal.Outcome.returned.inj same)
      | _ => cases same
  | failed fault =>
      cases second with
      | failed other => rw [shown, shown, Ideal.Outcome.failed.inj same]
      | _ => cases same
  | tooDeep =>
      cases second with
      | tooDeep => rfl
      | _ => cases same

namespace Session

/-- How programs end that are run one after the other, what each of them ends with being given
up before the next. -/
def outcomes (depth : Nat) : Session → List Program → List Outcome
  | _, [] => []
  | session, program :: programs =>
    let ended := session.run depth program
    ended.1 :: (ended.2.giveUp ended.1).outcomes depth programs

/-- The store after a program whose value has been given up again. -/
theorem built_run_giveUp {session : Session} (built : session.store.Built [.scope session.global])
    {depth : Nat} {program : Program} {result : Value}
    (ended : (session.run depth program).1 = .value result) :
    ((session.run depth program).2.giveUp (.value result)).store.Built
      [.scope session.global] := by
  have run := built.run List.mem_cons_self depth session.loaded program
  have isHeld : ((program.eval depth session.global session.loaded).outcome session.store).1.holds =
      [.value result] := congrArg Outcome.holds ended
  rw [isHeld] at run
  exact run.giveUp (.value result) (List.Perm.refl _)

/-- Where frames last, the programs put together end as the last of them does. -/
theorem outcomes_ideal {depth : Nat} {session : Session} {programs : List Program}
    {heap : Ideal.Heap} (built : session.store.Built [.scope session.global])
    (matched : session.store.Matches heap) (nonempty : ∀ program ∈ programs, program ≠ [])
    (values : ∀ outcome ∈ (session.outcomes depth programs).dropLast,
      ∃ result, outcome = .value result)
    (sound : .failed .releasedEnvironment ∉ session.outcomes depth programs) :
    ∀ outcome ∈ (session.outcomes depth programs).getLast?,
      (Ideal.run depth session.global session.loaded programs.flatten heap).1 = outcome.ideal := by
  induction programs generalizing session heap with
  | nil => rintro outcome ⟨⟩
  | cons program programs ih =>
      have follows := Program.run_follows depth List.mem_cons_self session.loaded program
        built.balanced matched
      obtain ⟨notNow, notLater⟩ := List.ne_and_not_mem_of_not_mem_cons sound
      obtain ⟨alike, matchedAfter⟩ := follows.resolve_left (Ne.symm notNow)
      cases programs with
      | nil =>
          rintro outcome ⟨⟩
          rw [List.flatten_singleton]
          exact alike
      | cons next others =>
          let after := (session.run depth program).2.giveUp (session.run depth program).1
          have both : ∀ outcome ∈ (session.run depth program).1 ::
              (after.outcomes depth (next :: others)).dropLast,
              ∃ result, outcome = .value result := values
          obtain ⟨⟨result, isValue⟩, valuesLater⟩ := List.forall_mem_cons.mp both
          obtain ⟨-, nonemptyLater⟩ := List.forall_mem_cons.mp nonempty
          have builtLater : after.store.Built [.scope session.global] := by
            have given := built_run_giveUp built isValue
            rwa [← isValue] at given
          have later := ih builtLater (matchedAfter.release _) nonemptyLater valuesLater notLater
          intro outcome isLast
          rw [← later outcome isLast, List.flatten_cons]
          have isFirst : Ideal.run depth session.global session.loaded program heap =
              (.value result.ideal,
                (Ideal.run depth session.global session.loaded program heap).2) := by
            refine Prod.ext (alike.trans ?_) rfl
            exact congrArg Outcome.ideal isValue
          have notEmpty : (next :: others).flatten ≠ [] := by
            rw [List.flatten_cons]
            exact List.append_ne_nil_of_left_ne_nil (nonemptyLater next List.mem_cons_self) _
          rw [Ideal.run_append isFirst notEmpty]
          rfl

theorem length_outcomes (depth : Nat) (session : Session) (programs : List Program) :
    (session.outcomes depth programs).length = programs.length := by
  induction programs generalizing session with
  | nil => rfl
  | cons program programs ih => exact congrArg (· + 1) (ih _)

end Session

/-! ## Texts put together -/

section

variable {sources : List String}
  (sound : ∀ source ∈ sources, (parse source).diagnostics = [])

/-- What has been read without a diagnostic closes its braces. -/
theorem foldl_depthAfter_of_sound {source : String} (sound : (parse source).diagnostics = []) :
    ((Cursor.ofText source).words.map Token.kind).foldl Tape.depthAfter 0 = 0 :=
  (Tape.isProgram_of_parse sound).bracesMatch 0

theorem parse_program_ne_nil {source : String} (sound : (parse source).diagnostics = [])
    (semicolon : (Cursor.ofText source).words.getLast?.map Token.kind =
      some (.symbol .semicolon)) : (parse source).program ≠ [] := by
  intro isEmpty
  have isProgram : Grammar.IsProgram ((Cursor.ofText source).words.map Token.kind) [] := by
    rw [← isEmpty]
    exact Tape.isProgram_of_parse sound
  generalize isKinds : (Cursor.ofText source).words.map Token.kind = kinds at isProgram
  cases isProgram
  rw [List.map_eq_nil_iff.mp isKinds] at semicolon
  cases semicolon

include sound

/-- Sound sources that end in semicolons are read one after the other. -/
theorem parse_join (semicolons : ∀ source ∈ sources,
      (Cursor.ofText source).words.getLast?.map Token.kind = some (.symbol .semicolon)) :
    parse (String.join sources) =
      ⟨(sources.map fun source => (parse source).program).flatten, []⟩ := by
  induction sources with
  | nil => cbv
  | cons source sources ih =>
      obtain ⟨soundFirst, soundOthers⟩ := List.forall_mem_cons.mp sound
      obtain ⟨endsFirst, endOthers⟩ := List.forall_mem_cons.mp semicolons
      have closed : (Tape.ofCursor (.ofText source)).Closed :=
        ⟨endsFirst, foldl_depthAfter_of_sound soundFirst⟩
      rw [String.join_cons, parse_append_of_closed closed, ih soundOthers endOthers, Parsed.append,
        soundFirst]
      rfl

namespace Shell

omit sound in
@[simp]
theorem Answer.output_ofResult (output : String) (failure : Option Failure) :
    (Answer.ofResult output failure).output = output := by
  cases failure <;> rfl

/-- What a session prints for a sound source ends with the line that shows its outcome. -/
theorem transcript_eq_zipWith (depth : Nat) (options : Options) (session : Session) :
    transcript depth options session sources =
      List.zipWith
        (fun source ended => tokenListing options source ++
          programListing options (parse source).program ++ ended.shown ++ "\n")
        sources (session.outcomes depth (sources.map fun source => (parse source).program)) := by
  induction sources generalizing session with
  | nil => rfl
  | cons source sources ih =>
      obtain ⟨soundFirst, soundOthers⟩ := List.forall_mem_cons.mp sound
      have isProgram : (parse source).toExcept = .ok (parse source).program := if_pos soundFirst
      rw [transcript, evaluate, isProgram, ih soundOthers]
      rfl

end Shell

end

/-- The last of the pairs of two lists of one length is the pair of the last of each. -/
theorem getLast?_zipWith {α β γ : Type} {f : α → β → γ} {firsts : List α} {seconds : List β}
    (same : firsts.length = seconds.length) {first : α} {second : β}
    (isFirst : first ∈ firsts.getLast?) (isSecond : second ∈ seconds.getLast?) :
    (List.zipWith f firsts seconds).getLast? = some (f first second) := by
  rw [List.getLast?_eq_getElem?] at isFirst isSecond ⊢
  rw [same] at isFirst
  rw [List.getElem?_zipWith, List.length_zipWith, same, Nat.min_self, isFirst, isSecond]

/-- Sources that are answered in one session, each of them closed by a semicolon and each but
the last with a value, can be put together to a script. The script ends as the last of them
does in the session, and shows the same line, unless one of the two runs calls a function whose
home is gone. -/
theorem Shell.runScript_join (depth : Nat) (options : Options) {sources : List String}
    {last : String} (isLast : last ∈ sources.getLast?)
    (sound : ∀ source ∈ sources, (parse source).diagnostics = [])
    (semicolons : ∀ source ∈ sources,
      (Cursor.ofText source).words.getLast?.map Token.kind = some (.symbol .semicolon))
    (values : ∀ ended ∈ (Session.start.outcomes depth
        (sources.map fun source => (parse source).program)).dropLast,
      ∃ result, ended = .value result)
    (sessionSound : .failed .releasedEnvironment ∉
      Session.start.outcomes depth (sources.map fun source => (parse source).program))
    (scriptSound : (Session.start.run depth (parse (String.join sources)).program).1 ≠
      .failed .releasedEnvironment) :
    ∃ ended ∈ (Session.start.outcomes depth
        (sources.map fun source => (parse source).program)).getLast?,
      (transcript depth options Session.start sources).getLast? =
        some (tokenListing options last ++ programListing options (parse last).program ++
          ended.shown ++ "\n") ∧
      (runScript depth options (String.join sources)).output =
        tokenListing options (String.join sources) ++
          programListing options (parse (String.join sources)).program ++ ended.shown ++ "\n" := by
  have joined := parse_join sound semicolons
  generalize isPrograms : (sources.map fun source => (parse source).program) = programs at *
  have sameLength : sources.length = (Session.start.outcomes depth programs).length := by
    rw [Session.length_outcomes, ← isPrograms, List.length_map]
  have nonempty : ∀ program ∈ programs, program ≠ [] := by
    rw [← isPrograms, List.forall_mem_map]
    exact fun source isSource => parse_program_ne_nil (sound source isSource)
      (semicolons source isSource)
  have notEmpty : Session.start.outcomes depth programs ≠ [] := by
    apply List.ne_nil_of_length_pos
    rw [← sameLength]
    exact List.length_pos_of_mem (List.mem_of_mem_getLast? isLast)
  have isEnded := List.getLast?_eq_some_getLast notEmpty
  generalize (Session.start.outcomes depth programs).getLast notEmpty = ended at isEnded
  refine ⟨ended, isEnded, ?_, ?_⟩
  · rw [transcript_eq_zipWith sound, isPrograms]
    exact getLast?_zipWith sameLength isLast isEnded
  · have matched := Session.start.store.matches_ideal
    have lasting := Session.outcomes_ideal Session.start_built matched nonempty values sessionSound
      ended isEnded
    have follows := Program.run_follows depth List.mem_cons_self Session.start.loaded
      programs.flatten Session.start_built.balanced matched
    rw [joined] at scriptSound ⊢
    obtain ⟨alike, -⟩ := follows.resolve_left scriptSound
    have sameShown := Outcome.shown_eq_of_ideal (lasting.symm.trans alike)
    have isProgram : (parse (String.join sources)).toExcept = .ok programs.flatten := by
      rw [joined]
      rfl
    rw [runScript, Answer.output_ofResult, evaluate, isProgram, sameShown]
    rfl

/-- A function that is bound on one line of a session and called on the next gives what it gives
in a script. -/
theorem Shell.runScript_join_adder :
    let sources := ["let add = fn(x) \x7b fn(y) \x7b x + y \x7d \x7d;", "return add(2)(3);"]
    (transcript 2 ⟨false, false⟩ Session.start sources).getLast? = some "5\n" ∧
      (runScript 2 ⟨false, false⟩ (String.join sources)).output = "5\n" := by
  intro sources
  let programs : List Program := [
    [.letBind "add" (.fn ["x"]
      [.expr (.fn ["y"] [.expr (.infixOp .plus (.ident "x") (.ident "y"))])])],
    [.ret (.call (.call (.ident "add") [.int 2]) [.int 3])]]
  have areParsed : sources.map parse = programs.map fun program => ⟨program, []⟩ := by
    unfold sources programs
    cbv
  have arePrograms : (sources.map fun source => (parse source).program) = programs := by
    simpa [Function.comp_def] using congrArg (List.map Parsed.program) areParsed
  have areSound : ∀ source ∈ sources, (parse source).diagnostics = [] := by
    intro source isSource
    have isResult := List.mem_map_of_mem (f := parse) isSource
    rw [areParsed] at isResult
    obtain ⟨program, -, isParsed⟩ := List.mem_map.mp isResult
    rw [← isParsed]
  have isJoined : (parse (String.join sources)).program = programs.flatten := by
    unfold sources programs
    cbv
  have areOutcomes : Session.start.outcomes 2 programs =
      [.value (.function ⟨["x"], [.expr (.fn ["y"]
        [.expr (.infixOp .plus (.ident "x") (.ident "y"))])], [0], Session.start.global, []⟩),
        .returned (.int 5)] := by
    unfold programs
    cbv
  have isScript : (Session.start.run 2 programs.flatten).1 = .returned (.int 5) := by
    unfold programs
    cbv
  obtain ⟨ended, isEnded, inSession, inScript⟩ := Shell.runScript_join 2 ⟨false, false⟩
    (rfl : "return add(2)(3);" ∈ sources.getLast?) areSound
    (List.forall_mem_cons.mpr ⟨by cbv, List.forall_mem_singleton.mpr (by cbv)⟩)
    (by rw [arePrograms, areOutcomes]; simp) (by rw [arePrograms, areOutcomes]; simp)
    (by rw [isJoined, isScript]; simp)
  rw [arePrograms, areOutcomes] at isEnded
  cases isEnded
  exact ⟨inSession, inScript⟩

end Monkey
