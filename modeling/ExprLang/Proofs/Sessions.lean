/-
A session hands on nothing but its sink. Each step ends as it does by itself, on an
empty sink with as much room as is left, and what it writes there comes behind what
the sink holds already (`Step.framed`). So the steps of a session can be performed
apart from each other, if each is told the settings and how many bytes are held by
then (`Session.agrees_apart`).
-/
import ExprLang.Session
import ExprLang.Proofs.Output
import ExprLang.Proofs.Types

namespace ExprLang

/-! ## A sink behind another -/

namespace Sink

/-- An empty sink with these settings, and with the room that they leave behind `count` bytes. -/
def fresh (settings : SinkSettings) (count : Nat) : Sink :=
  { settings := { settings with capacity := settings.capacity.map (· - count) } }

/-- The sink after what happened on another: its bytes come behind, and its flushes count too. -/
def followedBy (sink other : Sink) : Sink :=
  ⟨sink.settings, sink.held ++ other.held, sink.flushes + other.flushes⟩

/-- The other sink behaves as a fresh one with the room that this one has left. -/
structure Continues (sink other : Sink) : Prop where
  settings : other.settings = { sink.settings with capacity := sink.room? }

theorem continues_fresh (sink : Sink) : sink.Continues (fresh sink.settings sink.held.length) := ⟨rfl⟩

theorem followedBy_fresh (sink : Sink) : sink.followedBy (fresh sink.settings sink.held.length) = sink := by
  simp [followedBy, fresh]

variable {sink other : Sink}

theorem Continues.congr {other' : Sink} (h : sink.Continues other) (hs : other'.settings = other.settings) :
    sink.Continues other' :=
  ⟨hs.trans h.settings⟩

theorem Continues.room?_eq (h : sink.Continues other) : (sink.followedBy other).room? = other.room? := by
  simp only [room?, h.settings, followedBy, List.length_append, Option.map_map]
  congr 1
  funext capacity
  simp only [Function.comp_apply]
  omega

/-- A write goes as it does on the other sink. -/
theorem Continues.write_eq (h : sink.Continues other) (bytes : List UInt8) :
    (sink.followedBy other).write bytes = (sink.followedBy (other.write bytes).1, (other.write bytes).2) := by
  have hfit : (sink.followedBy other).fitting bytes = other.fitting bytes := by
    simp only [fitting, h.room?_eq]
  have hfault : (sink.followedBy other).fullFault = other.fullFault := by
    simp only [fullFault, h.settings, followedBy]
  simp only [write, hfit, hfault]
  simp only [followedBy, List.append_assoc]

theorem Continues.flush_eq (h : sink.Continues other) :
    (sink.followedBy other).flush = (sink.followedBy other.flush.1, other.flush.2) := by
  have hfails : other.settings.flushFails = sink.settings.flushFails := by rw [h.settings]
  rw [flush, flush, hfails]
  simp only [followedBy, Nat.add_assoc]
  rfl

end Sink

/-- The outcome as it shows on a sink that the other one follows. -/
def Outcome.behind {ε : Type} (sink : Sink) (o : Outcome ε) : Outcome ε := ⟨sink.followedBy o.sink, o.failure⟩

/-! ## Programs -/

section

variable {sink other : Sink}

theorem Statement.execute_followedBy (h : sink.Continues other) (s : Statement) :
    s.execute (sink.followedBy other) = (s.execute other).behind sink := by
  cases s with
  | expression e line =>
    simp only [execute]
    cases e.evaluate <;> rfl
  | print e line =>
    simp only [execute]
    cases e.evaluate with
    | error error => rfl
    | ok value => simp only [h.write_eq, Outcome.behind]

theorem Program.execute_followedBy (h : sink.Continues other) (p : Program) :
    execute (sink.followedBy other) p = (execute other p).behind sink := by
  induction p generalizing other with
  | nil => rfl
  | cons s p ih =>
    have hs := s.execute_followedBy h
    have hkept := s.execute_settings other
    rcases he : s.execute other with ⟨other', _ | error⟩
    · rw [he] at hs hkept
      rw [execute_cons he, ← ih (h.congr hkept)]
      exact execute_cons hs p
    · rw [he] at hs
      rw [execute_cons_failure he]
      exact execute_cons_failure hs p

theorem Program.interpret_followedBy (h : sink.Continues other) (p : Program) :
    interpret (sink.followedBy other) p = (interpret other p).behind sink := by
  have hp := execute_followedBy h p
  have hkept := execute_settings other p
  rcases he : execute other p with ⟨other', _ | error⟩
  · rw [he] at hp hkept
    rw [interpret, interpret, hp, he]
    simp only [Outcome.behind, (h.congr hkept).flush_eq]
  · rw [he] at hp
    rw [interpret_of_failure he]
    exact interpret_of_failure hp

end

/-- The other is begun where the first has ended, unless that is a failure. -/
def Outcome.andThen {ε : Type} (o : Outcome ε) (next : Sink → Outcome ε) : Outcome ε :=
  match o.failure with
  | none => next o.sink
  | some _ => o

/-- Two programs one after the other are executed so, the second only if the first succeeds. -/
theorem Program.execute_andThen (sink : Sink) (p q : Program) :
    execute sink (p ++ q) = (execute sink p).andThen (execute · q) := by
  induction p generalizing sink with
  | nil => rfl
  | cons s p ih =>
    rw [List.cons_append]
    rcases hs : s.execute sink with ⟨sink', _ | error⟩
    · rw [execute_cons hs, execute_cons hs, ih]
    · rw [execute_cons_failure hs, execute_cons_failure hs]; rfl

/-! ## Steps -/

namespace Step

/-- The settings that a step leaves to a sink that has these. -/
def settingsAfter (settings : SinkSettings) : Step → SinkSettings
  | .configure changed => changed
  | .interpret _ | .execute _ => settings

/-- The step comes to its flush: it interprets a program, and all statements succeed. -/
def flushes (sink : Sink) : Step → Bool
  | .interpret input =>
    match input.program? with
    | .ok program => (Program.execute sink program).failure.isNone
    | .error _ => false
  | .execute _ | .configure _ => false

/-- What a step does by itself, on a fresh sink with the room that is left behind `count` bytes. -/
def alone (settings : SinkSettings) (count : Nat) (step : Step) : Outcome Error :=
  step.perform (Sink.fresh settings count)

/-- The outcome of a step on a sink is that of the step by itself, behind what the sink holds. -/
structure Framed (sink : Sink) (step : Step) (o : Outcome Error) : Prop where
  failure : o.failure = (step.alone sink.settings sink.held.length).failure
  held : o.sink.held = sink.held ++ (step.alone sink.settings sink.held.length).sink.held
  settings : o.sink.settings = step.settingsAfter sink.settings
  flushes : o.sink.flushes = sink.flushes + (step.flushes sink).toNat

end Step

theorem Program.execute_alone (sink : Sink) (p : Program) :
    execute sink p = (execute (Sink.fresh sink.settings sink.held.length) p).behind sink := by
  have h := execute_followedBy sink.continues_fresh p
  rwa [sink.followedBy_fresh] at h

theorem Program.interpret_alone (sink : Sink) (p : Program) :
    interpret sink p = (interpret (Sink.fresh sink.settings sink.held.length) p).behind sink := by
  have h := interpret_followedBy sink.continues_fresh p
  rwa [sink.followedBy_fresh] at h

theorem Outcome.mapFailure_behind {ε ε' : Type} (f : ε → ε') (sink : Sink) (o : Outcome ε) :
    (o.behind sink).mapFailure f = (o.mapFailure f).behind sink := rfl

/-- A program that is executed does not flush. -/
theorem Program.execute_flushes (sink : Sink) (p : Program) : (execute sink p).sink.flushes = sink.flushes := by
  induction p generalizing sink with
  | nil => rfl
  | cons s p ih =>
    have hs : (s.execute sink).sink.flushes = sink.flushes := by
      cases s <;> simp only [Statement.execute] <;> split <;> rfl
    rcases he : s.execute sink with ⟨sink', _ | error⟩
    · rw [he] at hs
      rw [execute_cons he, ih, hs]
    · rw [he] at hs
      rw [execute_cons_failure he, hs]

theorem Program.interpret_flushes (sink : Sink) (p : Program) :
    (interpret sink p).sink.flushes = sink.flushes + (execute sink p).failure.isNone.toNat := by
  have hkept := execute_flushes sink p
  rcases he : execute sink p with ⟨sink', _ | error⟩
  · rw [he] at hkept
    rw [interpret_of_success he, ← hkept]
    rfl
  · rw [he] at hkept
    rw [interpret_of_failure he, ← hkept]
    rfl

namespace Step

theorem Framed.of_behind {sink : Sink} {step : Step}
    (h : step.perform sink = (step.alone sink.settings sink.held.length).behind sink)
    (hs : step.settingsAfter sink.settings = sink.settings)
    (hf : (step.perform sink).sink.flushes = sink.flushes + (step.flushes sink).toNat) :
    step.Framed sink (step.perform sink) := by
  refine ⟨?_, ?_, ?_, hf⟩
  · rw [h]; rfl
  · rw [h]; rfl
  · rw [h, hs]; rfl

/-- A text that is no program is refused before anything is written. -/
theorem framed_refused {sink : Sink} {step : Step} {error : Error}
    (h : ∀ sink, step.perform sink = ⟨sink, some error⟩)
    (hs : step.settingsAfter sink.settings = sink.settings) (hf : step.flushes sink = false) :
    step.Framed sink (step.perform sink) := by
  refine .of_behind ?_ hs ?_
  · rw [alone, h, h, Outcome.behind, Sink.followedBy_fresh]
  · rw [h, hf]; rfl

/-- **What a step does on a sink** is what it does by itself with the room that is left. -/
theorem framed (sink : Sink) (step : Step) : step.Framed sink (step.perform sink) := by
  cases step with
  | configure changed => exact ⟨rfl, (List.append_nil _).symm, rfl, rfl⟩
  | interpret input =>
    cases hp : input.program? with
    | error error =>
      have hrefused : ∀ sink, (interpret input).perform sink = ⟨sink, some error⟩ := fun sink => by
        simp only [perform, hp]
      exact framed_refused hrefused rfl (by simp only [flushes, hp])
    | ok p =>
      refine .of_behind ?_ rfl ?_
      · simp only [alone, perform, hp]
        rw [Program.interpret_alone sink p, Outcome.mapFailure_behind]
      · simp only [perform, flushes, hp]
        exact Program.interpret_flushes sink p
  | execute input =>
    cases hp : input.program? with
    | error error =>
      have hrefused : ∀ sink, (execute input).perform sink = ⟨sink, some error⟩ := fun sink => by
        simp only [perform, hp]
      exact framed_refused hrefused rfl rfl
    | ok p =>
      refine .of_behind ?_ rfl ?_
      · simp only [alone, perform, hp]
        rw [Program.execute_alone sink p, Outcome.mapFailure_behind]
      · simp only [perform, hp]
        exact Program.execute_flushes sink p

end Step

/-! ## Sessions -/

namespace Session

theorem finalSink_append (sink : Sink) (front back : List Step) :
    finalSink sink (front ++ back) = finalSink (finalSink sink front) back := List.foldl_append

/-- The steps of the second part meet the sink that the first part leaves. -/
theorem perform_append (sink : Sink) (front back : List Step) :
    perform sink (front ++ back) = perform sink front ++ perform (finalSink sink front) back := by
  induction front generalizing sink with
  | nil => rfl
  | cons step front ih => exact congrArg (_ :: ·) (ih _)

theorem length_perform (sink : Sink) (steps : List Step) : (perform sink steps).length = steps.length := by
  induction steps generalizing sink with
  | nil => rfl
  | cons step steps ih => exact congrArg (· + 1) (ih _)

/-- The outcomes of the steps apart from each other, each on a sink of its own: nothing is handed on
but the settings and how many bytes are held by then. -/
def apart (settings : SinkSettings) (count : Nat) : List Step → List (Outcome Error)
  | [] => []
  | step :: steps =>
    let o := step.alone settings count
    o :: apart (step.settingsAfter settings) (count + o.sink.held.length) steps

/-- How many of the steps flush. -/
def flushCount (sink : Sink) : List Step → Nat
  | [] => 0
  | step :: steps => (step.flushes sink).toNat + flushCount (step.perform sink).sink steps

/-- A session gives what its steps give apart from each other. -/
structure AgreesApart (sink : Sink) (steps : List Step) : Prop where
  results : (perform sink steps).map (·.failure) =
    (apart sink.settings sink.held.length steps).map (·.failure)
  /-- Behind what was held to begin with is what the steps wrote, in order. -/
  output : (finalSink sink steps).held =
    sink.held ++ (apart sink.settings sink.held.length steps).flatMap (·.sink.held)
  flushes : (finalSink sink steps).flushes = sink.flushes + flushCount sink steps

theorem agrees_apart (sink : Sink) (steps : List Step) : AgreesApart sink steps := by
  induction steps generalizing sink with
  | nil => exact ⟨rfl, (List.append_nil _).symm, rfl⟩
  | cons step steps ih =>
    obtain ⟨hfailure, hheld, hsettings, hflushes⟩ := step.framed sink
    obtain ⟨hresults, houtput, hcount⟩ := ih (step.perform sink).sink
    rw [hsettings, hheld, List.length_append] at hresults houtput
    refine ⟨?_, ?_, ?_⟩
    · exact congrArg₂ List.cons hfailure hresults
    · rw [apart, List.flatMap_cons, ← List.append_assoc]
      exact houtput
    · rw [flushCount, ← Nat.add_assoc, ← hflushes]
      exact hcount

/-- What is held at some time is held from then on. -/
theorem held_prefix (sink : Sink) (front back : List Step) :
    (finalSink sink front).held <+: (finalSink sink (front ++ back)).held := by
  rw [finalSink_append, (agrees_apart _ back).output]
  exact List.prefix_append _ _

/-- The outcome of a step among others. -/
theorem getElem?_perform (sink : Sink) (front : List Step) (step : Step) (back : List Step) :
    (perform sink (front ++ step :: back))[front.length]? = some (step.perform (finalSink sink front)) := by
  rw [perform_append, List.getElem?_append_right (by rw [length_perform]), length_perform, Nat.sub_self]
  rfl

/-- **A session hands on nothing but its sink.** Every step ends as it does by itself, with the room that
is left, and leaves its bytes behind those that were held before and are held from then on; a session
writes what its steps write apart from each other, and is flushed once for each of them that interprets
statements which all succeed; and a program may be executed in two parts, the second if the first succeeds. -/
theorem carries_sink_only (sink : Sink) :
    (∀ front step back, ∃ o, (perform sink (front ++ step :: back))[front.length]? = some o ∧
      step.Framed (finalSink sink front) o ∧ finalSink sink (front ++ [step]) = o.sink) ∧
    (∀ front back, (finalSink sink front).held <+: (finalSink sink (front ++ back)).held) ∧
    (∀ steps, AgreesApart sink steps) ∧
    ∀ p q, Program.execute sink (p ++ q) = (Program.execute sink p).andThen (Program.execute · q) := by
  refine ⟨fun front step back => ?_, held_prefix sink, agrees_apart sink, Program.execute_andThen sink⟩
  exact ⟨_, getElem?_perform sink front step back, step.framed _, finalSink_append sink front [step]⟩

/-- A step that fills the sink, a change of its settings, and a step that goes on behind it. -/
example : (perform { settings := { capacity := some 3 } }
    [.execute (.source "print \"abc\";"), .configure {}, .interpret (.source "print nil; nil;")]).map
      (fun o => (o.failure, o.sink.held, o.sink.flushes)) =
    [(some (.runtime (SinkFault.full.blame 1)), utf8 "abc", 0), (none, utf8 "abc", 0),
      (none, utf8 "abcnil\n", 1)] := by decide +kernel

end Session
end ExprLang
