import Sentential.Session
import Sentential.Proofs.Conversion.Consultation

/-! The calls of the model in a session. A step that needs the model takes the next reply, and every
other step leaves the session as it is. So what is seen of a step depends on the replies and on the
number of steps before it that need the model, and on nothing else that was done before. -/

namespace Sentential

def Step.consults (settings : Settings) : Step → Bool
  | .convert request => settings.consults request
  | .sentence .. | .parse _ | .settings => false

/-- The step is a conversion that asks the model, and what is seen of it is made of the reply. -/
def Step.Asks (settings : Settings) (reply : Except ModelFailure String) (step : Step)
    (report : StepReport) : Prop :=
  ∃ request log resume, step = .convert request ∧
    settings.convert request = .asking log resume ∧
    report.result = .conversion (resume reply).result ∧ report.log = log ++ (resume reply).log

def marked {α : Type} (items : List (α × Bool)) : List α := (items.filter (·.2)).map (·.1)

namespace Session

def after (session : Session) (steps : List Step) : Session :=
  steps.foldl (fun session step => (session.perform step).2.2) session

def report (session : Session) (step : Step) : StepReport :=
  ⟨(session.perform step).1, (session.perform step).2.2.calls, (session.perform step).2.1⟩

def callsShown (reports : List StepReport) : Nat :=
  (reports.flatMap (·.log)).countP (·.isCall)

/-- The reply to a call of the model that follows a number of others. -/
def replyAfter (replies : List (Except ModelFailure String)) (calls : Nat) :
    Except ModelFailure String :=
  replies[calls]?.getD (.error (.unavailable "no scripted reply"))

variable {session : Session} {step : Step} {steps : List Step}

theorem run_cons (session : Session) (step : Step) (steps : List Step) :
    session.run (step :: steps) = session.report step :: (session.after [step]).run steps := rfl

theorem after_cons (session : Session) (step : Step) (steps : List Step) :
    session.after (step :: steps) = (session.after [step]).after steps := rfl

theorem call_eq (session : Session) :
    session.call = (replyAfter session.replies 0,
      { session with replies := session.replies.tail, calls := session.calls + 1 }) := by
  unfold call
  cases session.replies <;> rfl

theorem callsShown_cons (report : StepReport) (reports : List StepReport) :
    callsShown (report :: reports) = callsShown [report] + callsShown reports := by
  simp only [callsShown, List.flatMap_cons, List.countP_append, List.flatMap_nil, List.append_nil]

theorem replyAfter_drop (replies : List (Except ModelFailure String)) (calls : Nat) :
    replyAfter (replies.drop calls) 0 = replyAfter replies calls := by
  rw [replyAfter, replyAfter, List.getElem?_drop, Nat.add_zero]

/-! ### One step -/

/-- A step that needs the model takes the next reply, and its log shows one call. -/
theorem step_of_consults (h : step.consults session.settings = true) :
    session.after [step] =
        { session with replies := session.replies.tail, calls := session.calls + 1 } ∧
      step.Asks session.settings (replyAfter session.replies 0) (session.report step) ∧
      callsShown [session.report step] = 1 := by
  cases step with
  | sentence formula meanings => cases h
  | parse formula => cases h
  | settings => cases h
  | convert request =>
    obtain ⟨before, hconvert, hbefore⟩ := Settings.convert_of_consults h
    obtain ⟨call, resume, hask, hcall, hresume⟩ := session.settings.ask_eq request before
    have hasking := hconvert.trans hask
    have hperform : session.perform (.convert request) =
        (.conversion (resume (replyAfter session.replies 0)).result,
          before ++ [call] ++ (resume (replyAfter session.replies 0)).log,
          { session with replies := session.replies.tail, calls := session.calls + 1 }) := by
      rw [perform, hasking, call_eq]
    have hreport := congrArg (fun seen => StepReport.mk seen.1 seen.2.2.calls seen.2.1) hperform
    refine ⟨congrArg (·.2.2) hperform, ⟨request, _, resume, rfl, hasking, ?_, ?_⟩, ?_⟩
    · exact congrArg (·.result) hreport
    · exact congrArg (·.log) hreport
    · have hlog : (session.report (.convert request)).log =
          before ++ [call] ++ (resume (replyAfter session.replies 0)).log := congrArg (·.log) hreport
      have hbefore' : before.countP (·.isCall) = 0 := by simpa using hbefore
      have hresume' : (resume (replyAfter session.replies 0)).log.countP (·.isCall) = 0 := by
        simpa using hresume (replyAfter session.replies 0)
      rw [callsShown, List.flatMap_singleton, hlog, List.countP_append, List.countP_append, hbefore',
        hresume', List.countP_singleton, hcall, if_pos rfl]

/-- A step that does not need the model leaves the session as it is, and records nothing. -/
theorem step_of_not_consults (h : step.consults session.settings = false) :
    session.after [step] = session ∧ (session.report step).log = [] ∧
      ∀ request log resume, step = .convert request →
        session.settings.convert request ≠ .asking log resume := by
  cases step with
  | sentence formula meanings => exact ⟨rfl, rfl, fun _ _ _ he => nomatch he⟩
  | parse formula => exact ⟨rfl, rfl, fun _ _ _ he => nomatch he⟩
  | settings => exact ⟨rfl, rfl, fun _ _ _ he => nomatch he⟩
  | convert request =>
    obtain ⟨result, hconvert⟩ := Settings.convert_of_not_consults h
    have hperform : session.perform (.convert request) = (.conversion result, [], session) := by
      rw [perform, hconvert]
    refine ⟨congrArg (·.2.2) hperform, congrArg (·.2.1) hperform, ?_⟩
    rintro other log resume he hasking
    cases he
    rw [hconvert] at hasking
    cases hasking

/-! ### Runs -/

/-- A run leaves the settings as they are, uses a reply for each step that needs the model, and
counts these steps. -/
theorem after_eq (session : Session) (steps : List Step) :
    session.after steps =
      { session with
        replies := session.replies.drop (steps.countP (·.consults session.settings))
        calls := session.calls + steps.countP (·.consults session.settings) } := by
  induction steps generalizing session with
  | nil => rfl
  | cons step steps ih =>
    rw [after_cons, ih, List.countP_cons]
    cases h : step.consults session.settings with
    | true =>
      rw [(step_of_consults h).1]
      simp only [if_true, List.drop_tail, Nat.add_assoc, Nat.add_comm 1]
    | false =>
      rw [(step_of_not_consults h).1]
      rfl

/-- What is seen of a step of a run is what is seen of it after the steps before. -/
theorem getElem?_run (session : Session) (steps : List Step) (i : Nat) :
    (session.run steps)[i]? = steps[i]?.map (session.after (steps.take i)).report := by
  induction steps generalizing session i with
  | nil => rfl
  | cons step steps ih =>
    rw [run_cons]
    cases i with
    | zero => rfl
    | succ i =>
      rw [List.getElem?_cons_succ, List.getElem?_cons_succ, List.take_succ_cons, after_cons]
      exact ih (session.after [step]) i

theorem take_run (session : Session) (steps : List Step) (n : Nat) :
    (session.run steps).take n = session.run (steps.take n) := by
  induction steps generalizing session n with
  | nil => rw [List.take_nil, run, List.take_nil]
  | cons step steps ih =>
    cases n with
    | zero => rfl
    | succ n => rw [run_cons, List.take_succ_cons, ih, List.take_succ_cons, run_cons]

theorem settings_after (session : Session) (steps : List Step) :
    (session.after steps).settings = session.settings := by
  rw [after_eq]

/-- The log of a run shows a call for each step that needs the model. -/
theorem callsShown_run (session : Session) (steps : List Step) :
    callsShown (session.run steps) = steps.countP (·.consults session.settings) := by
  induction steps generalizing session with
  | nil => rfl
  | cons step steps ih =>
    have hshown : callsShown [session.report step] =
        if step.consults session.settings then 1 else 0 := by
      split
      · next h => exact (step_of_consults h).2.2
      · next h =>
        rw [callsShown, List.flatMap_singleton,
          (step_of_not_consults (Bool.eq_false_iff.mpr h)).2.1]
        rfl
    have hrest := ih (session.after [step])
    rw [settings_after] at hrest
    rw [run_cons, callsShown_cons, hshown, hrest, List.countP_cons, Nat.add_comm]

/-- Steps that do not need the model do not change what is seen of the others. -/
theorem marked_run (session : Session) (items : List (Step × Bool))
    (h : ∀ item ∈ items, item.2 = false → item.1.consults session.settings = false) :
    marked ((session.run (items.map (·.1))).zip (items.map (·.2))) =
      session.run (marked items) := by
  induction items generalizing session with
  | nil => rfl
  | cons item items ih =>
    obtain ⟨step, mark⟩ := item
    obtain ⟨hstep, hrest⟩ := List.forall_mem_cons.mp h
    cases mark with
    | true =>
      -- A step that is kept changes the replies, but not the settings by which the others are judged.
      have hsettings := session.settings_after [step]
      exact congrArg (session.report step :: ·)
        (ih (session.after [step]) fun item hitem => hsettings ▸ hrest item hitem)
    | false =>
      have hafter := (step_of_not_consults (hstep rfl)).1
      rw [List.map_cons, run_cons, hafter]
      exact ih session hrest

/-- In a session, a step that needs the model asks it once and gets the next reply, and any other
step does not ask it. The calls that were made are those that the logs show. Steps that do not need
the model may be left out anywhere, and what is seen of all others stays the same. -/
theorem run_calls (settings : Settings) (replies : List (Except ModelFailure String)) :
    (∀ (steps : List Step) (i : Nat) (step : Step), steps[i]? = some step →
      ∃ report, ((start settings replies).run steps)[i]? = some report ∧
        let calls := (steps.take i).countP (·.consults settings)
        (step.consults settings = true →
          report.calls = calls + 1 ∧ step.Asks settings (replyAfter replies calls) report) ∧
        (step.consults settings = false →
          report.calls = calls ∧ ∀ request log resume, step = .convert request →
            settings.convert request ≠ .asking log resume) ∧
        report.calls = callsShown (((start settings replies).run steps).take (i + 1))) ∧
      ∀ items : List (Step × Bool),
        (∀ item ∈ items, item.2 = false → item.1.consults settings = false) →
        marked (((start settings replies).run (items.map (·.1))).zip (items.map (·.2))) =
          (start settings replies).run (marked items) := by
  refine ⟨fun steps i step hstep => ?_, (start settings replies).marked_run⟩
  let calls := (steps.take i).countP (·.consults settings)
  -- The session before the step holds the number of steps that need the model, and nothing else.
  let before : Session := ⟨settings, replies.drop calls, calls⟩
  have hbefore : (start settings replies).after (steps.take i) = before := by
    rw [after_eq]
    simp [start, before, calls]
  have hrun : ((start settings replies).run steps)[i]? = some (before.report step) := by
    rw [getElem?_run, hstep, hbefore]
    rfl
  have hasked : step.consults settings = true → (before.report step).calls = calls + 1 ∧
      step.Asks settings (replyAfter replies calls) (before.report step) := by
    intro h
    have hconsults : step.consults before.settings = true := h
    obtain ⟨hafter, hasks, -⟩ := step_of_consults hconsults
    rw [replyAfter_drop] at hasks
    exact ⟨congrArg (·.calls) hafter, hasks⟩
  have hdone : step.consults settings = false → (before.report step).calls = calls ∧
      ∀ request log resume, step = .convert request →
        settings.convert request ≠ .asking log resume := by
    intro h
    have hconsults : step.consults before.settings = false := h
    obtain ⟨hafter, -, hnone⟩ := step_of_not_consults hconsults
    exact ⟨congrArg (·.calls) hafter, hnone⟩
  refine ⟨before.report step, hrun, hasked, hdone, ?_⟩
  have hshown : callsShown (((start settings replies).run steps).take (i + 1)) =
      calls + if step.consults settings then 1 else 0 := by
    rw [take_run, callsShown_run, List.take_add_one, hstep, List.countP_append]
    exact congrArg (calls + ·) List.countP_singleton
  rw [hshown]
  split
  · next h => exact (hasked h).1
  · next h => exact (hdone (Bool.eq_false_iff.mpr h)).1

end Session

end Sentential
