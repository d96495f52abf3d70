import Exo.Api.Claude
import Exo.Lib.Cutting
import Exo.Lib.Dict
import Exo.Lib.Generator
import Exo.Lib.Text

/-!
# Stop sequences

Both generators put the text of each token behind the last of what was generated, and look for the
stop sequences in it, one after the other. The first one that they find is cut off, as far as it is
in this token: what was emitted with the tokens before is with the client.

The batch generator does this for many tasks at once. Counts, times and probabilities are left out.
-/

namespace Exo.StopSequences

open Lib

/-- `stop` of a task: nothing, a text, or a list of texts. -/
inductive Stop where
  | none
  | one (stop : Text)
  | many (stop : List Text)

/-- `_stop_sequences` -/
def Stop.sequences : Stop → List Text
  | none => []
  | one stop => [stop]
  | many stop => stop

/-- The text of a token, as it is generated and as it is emitted. -/
structure TokenText where
  text : Text
  token : Nat
  finishReason : Option FinishReason := none
deriving DecidableEq

/-- `max_stop_len` -/
def maxStopLen (stopSequences : List Text) : Nat :=
  (stopSequences.map List.length).max?.getD 0

/-- The loop over the stop sequences, in the text that ends with the token's. -/
def trimmed (stopSequences : List Text) (accumulatedText : Text) (out : TokenText) : TokenText :=
  match stopSequences.findSome? (cut · accumulatedText) with
  | none => out
  | some (textBeforeStop, _) =>
    let chunkStart := accumulatedText.length - out.text.length
    { out with text := textBeforeStop.drop chunkStart, finishReason := some .stop }

/-- What is needed to find a stop sequence later. -/
def lookBack (maxStopLen : Nat) (accumulatedText : Text) : Text :=
  if 0 < maxStopLen ∧ maxStopLen < accumulatedText.length then
    accumulatedText.drop (accumulatedText.length - maxStopLen)
  else accumulatedText

/-! ## `mlx_generate` -/

def mlxGenerator (stopSequences : List Text) : Generator Text TokenText TokenText where
  step accumulatedText out :=
    let accumulatedText := accumulatedText ++ out.text
    let emitted := trimmed stopSequences accumulatedText out
    ([emitted],
      if emitted.finishReason.isSome then none
      else some (lookBack (maxStopLen stopSequences) accumulatedText))

def mlxGenerate (stop : Stop) (outs : List TokenText) : List TokenText :=
  (mlxGenerator stop.sequences).output [] outs

/-! ## `ExoBatchGenerator` -/

structure EngineTask where
  stop : Stop
  potentialStopSequenceText : Text := []

/-- The tasks that are active. The engine counts the tasks it is given. -/
structure ExoBatchGenerator where
  nextUid : Nat := 0
  activeTasks : Dict Nat EngineTask := ∅

inductive Call where
  | submit (stop : Stop)
  /-- `step`, with the responses of the engine. -/
  | step (responses : List (Nat × TokenText))
  | cancel (uids : List Nat)

namespace ExoBatchGenerator

/-- One response within a step. -/
def respond (activeTasks : Dict Nat EngineTask) (response : Nat × TokenText) :
    Dict Nat EngineTask × List (Nat × TokenText) :=
  match activeTasks.get? response.1 with
  | none => (activeTasks, [])
  | some state =>
    let stopSequences := state.stop.sequences
    let potentialStopSequenceText := state.potentialStopSequenceText ++ response.2.text
    let emitted := trimmed stopSequences potentialStopSequenceText response.2
    if emitted.finishReason.isSome then
      (activeTasks.erase response.1, [(response.1, emitted)])
    else
      let kept := lookBack (maxStopLen stopSequences) potentialStopSequenceText
      (activeTasks.set response.1 { state with potentialStopSequenceText := kept },
        [(response.1, emitted)])

def respondAll (activeTasks : Dict Nat EngineTask) :
    List (Nat × TokenText) → Dict Nat EngineTask × List (Nat × TokenText)
  | [] => (activeTasks, [])
  | response :: responses =>
    let now := respond activeTasks response
    let later := respondAll now.1 responses
    (later.1, now.2 ++ later.2)

def perform (s : ExoBatchGenerator) : Call → ExoBatchGenerator × List (Nat × TokenText)
  | .submit stop =>
    ({ nextUid := s.nextUid + 1, activeTasks := s.activeTasks.set s.nextUid { stop } }, [])
  | .step responses =>
    ({ s with activeTasks := (respondAll s.activeTasks responses).1 },
      (respondAll s.activeTasks responses).2)
  | .cancel uids => ({ s with activeTasks := uids.foldl Dict.erase s.activeTasks }, [])

/-- The generator after the calls, and all that its steps returned. -/
def performAll (s : ExoBatchGenerator) : List Call → ExoBatchGenerator × List (Nat × TokenText)
  | [] => (s, [])
  | call :: calls =>
    let now := s.perform call
    let later := now.1.performAll calls
    (later.1, now.2 ++ later.2)

end ExoBatchGenerator

/-- What is there for one task. -/
def ofTask (uid : Nat) (responses : List (Nat × TokenText)) : List TokenText :=
  responses.filterMap fun response => if response.1 = uid then some response.2 else none

/-- What the engine generates for a task until it is cancelled. -/
def responsesTo (uid : Nat) : List Call → List TokenText
  | [] => []
  | .submit _ :: calls => responsesTo uid calls
  | .step responses :: calls => ofTask uid responses ++ responsesTo uid calls
  | .cancel uids :: calls => if uid ∈ uids then [] else responsesTo uid calls

/-- The task that is submitted behind these calls. -/
def uidBehind (before : List Call) : Nat :=
  (ExoBatchGenerator.performAll {} before).1.nextUid

/-- What the steps return for that task. -/
def batchEmitted (before : List Call) (stop : Stop) (after : List Call) : List TokenText :=
  ofTask (uidBehind before)
    ((ExoBatchGenerator.performAll {} before).1.performAll (.submit stop :: after)).2

/-! ## What is to be emitted -/

/-- The tokens up to the one that finishes. -/
def generated : List TokenText → List TokenText
  | [] => []
  | out :: outs => if out.finishReason.isSome then [out] else out :: generated outs

def textOf (outs : List TokenText) : Text := outs.flatMap (·.text)

/-- The text up to the earliest occurrence of a stop sequence, and the reason to finish. -/
structure CutAtStop (stopSequences : List Text) (outs emitted : List TokenText) : Prop where
  text : textOf emitted = cutAny stopSequences (textOf outs)
  finish : ∀ last ∈ emitted.getLast?, last.finishReason =
    if ∃ stop ∈ stopSequences, stop <:+: textOf outs then some .stop
    else outs.getLast?.bind (·.finishReason)

/-- With the first token that completes a stop sequence, the first one in the list that is complete
occurs where the earliest occurrence of all is, and that is in this token. -/
def StopsInTime (stopSequences : List Text) (whole said : Text) : List TokenText → Prop
  | [] => True
  | out :: outs =>
    match stopSequences.findSome? (cut · (said ++ out.text)) with
    | none => StopsInTime stopSequences whole (said ++ out.text) outs
    | some (textBeforeStop, _) =>
      said.length ≤ textBeforeStop.length ∧ textBeforeStop = cutAny stopSequences whole

end Exo.StopSequences
