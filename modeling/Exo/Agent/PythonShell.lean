import Exo.Lib.Json

/-!
# The sandbox of a session

A chat turn gives the id of its session to the tool that runs Python, unless the arguments that the
model made up have an id already. The tool makes a directory of the id and runs the code in it, or in
one below.

Python's `str` and `bool` of JSON values, what counts as a letter, the home directory and the links
in the file system are parameters.
-/

namespace Exo.PythonShell

open Lib

/-- `new_id("ses")`: 16 hexadecimal digits of a random number. -/
structure SessionId where
  digits : List (Fin 16)
  length_digits : digits.length = 16
deriving DecidableEq

/-- `ses_` and the digits. -/
def SessionId.text (s : SessionId) : Text := [115, 101, 115, 95] ++ s.digits.map Json.hexDigit

/-- What a model asks for: `function.name` and `function.arguments`. -/
structure ToolCall where
  name : Text
  arguments : Option Json

/-- What Python makes of values and characters. -/
structure Python where
  /-- `str(value)` of what is no string. -/
  str : Json → Text
  /-- A number that is not zero. -/
  nonzero : Number → Bool
  isAlnum : CodePoint → Bool
  isAlnum_digit : ∀ c : CodePoint, 48 ≤ c.val → c.val ≤ 57 → isAlnum c = true
  isAlnum_lower : ∀ c : CodePoint, 97 ≤ c.val → c.val ≤ 122 → isAlnum c = true
  /-- A separator of paths is none. -/
  isAlnum_slash : isAlnum 47 = false

namespace Python

variable (py : Python)

def strOf : Json → Text
  | .str t => t
  | j => py.str j

def truthy : Json → Bool
  | .const .null => false
  | .const (.bool b) => b
  | .const _ => true
  | .num n => py.nonzero n
  | .str t => !t.isEmpty
  | .arr items => !items.isEmpty
  | .obj members => !members.isEmpty

/-- `str(value or default)` -/
def strOr (value : Option Json) (default : Text) : Text :=
  match value with
  | none => default
  | some j => if py.truthy j then py.strOf j else default

end Python

/-- A dict of arguments. -/
abbrev Arguments := List (Text × Json)

def Arguments.get? (arguments : Arguments) (key : Text) : Option Json :=
  (Json.obj arguments).get? key

def Arguments.setDefault (arguments : Arguments) (key : Text) (value : Json) : Arguments :=
  if (arguments.get? key).isSome then arguments else arguments ++ [(key, value)]

def emptyObject : Text := [123, 125]

/-- `_tool_arguments` -/
def toolArguments (py : Python) (call : ToolCall) : Arguments :=
  let raw :=
    match call.arguments with
    | some j => if py.truthy j then j else .str emptyObject
    | none => .str emptyObject
  match raw with
  | .obj members => members
  | raw =>
    match Json.loads (py.strOf raw) with
    | none => [(Text.of "raw", .str (py.strOf raw))]
    | some (.obj members) => members
    | some value => [(Text.of "value", value)]

/-! ## Paths -/

/-- A path: how many slashes it begins with, of which two stand for themselves, and its parts. -/
structure PurePath where
  slashes : Nat
  parts : List Text

/-- The parts of a text between slashes. -/
def splitSlashes : Text → List Text
  | [] => [[]]
  | c :: t =>
    if c = 47 then [] :: splitSlashes t
    else
      match splitSlashes t with
      | [] => [[c]]
      | part :: more => (c :: part) :: more

def parsePath (t : Text) : PurePath where
  slashes :=
    let n := (t.takeWhile (· = 47)).length
    if n ≤ 2 then n else 1
  parts := (splitSlashes t).filter fun part => part ≠ [] ∧ part ≠ [46]

/-- The tools of the agent, with the file system they find. -/
structure ToolExecutor where
  enabled : Bool
  pythonEnabled : Bool
  /-- The parts of `sandbox_root`, which is resolved. -/
  sandboxRoot : List Text
  /-- `Path.expanduser`, which fails where there is no home directory. -/
  expanduser : PurePath → Option PurePath
  /-- `Path.resolve` of an absolute path. -/
  resolve : List Text → List Text
  /-- There are no links in place of the sandboxes. -/
  resolve_sandbox : ∀ id : Text, 47 ∉ id → id.head? ≠ some 46 → id ≠ [] →
    resolve (sandboxRoot ++ [id, Text.of "python"]) = sandboxRoot ++ [id, Text.of "python"]

/-- What is cut off the ends of an id. -/
def isEdge (c : CodePoint) : Bool := c = 46 || c = 95 || c = 45

def cleanedId (py : Python) (value : Text) : Text :=
  (((value.map fun c => if py.isAlnum c || isEdge c then c else 95).dropWhile isEdge).rdropWhile
    isEdge).take 80

def safeSandboxId (py : Python) (value : Text) : Text :=
  if cleanedId py value = [] then Text.of "default" else cleanedId py value

namespace ToolExecutor

variable (tools : ToolExecutor)

/-- `_resolve_under`: the path, if it is one below the root as it is written and as it is
resolved. -/
def resolveUnder (root : List Text) (supplied : Text) : Option (List Text) :=
  (tools.expanduser (parsePath supplied)).bind fun raw =>
    let resolved :=
      if raw.slashes = 0 then some (tools.resolve (root ++ raw.parts))
      else if raw.slashes = 1 ∧ root.isPrefixOf raw.parts then some (tools.resolve raw.parts)
      else none
    resolved.filter root.isPrefixOf

/-- The directory of an id. -/
def sandboxDir (sandboxId : Text) : List Text :=
  tools.resolve (tools.sandboxRoot ++ [sandboxId, Text.of "python"])

/-- The directories of a call: the one it may write to, and the one it runs in if it does run. -/
structure Used where
  sandboxDir : List Text
  cwd : Option (List Text)

variable (py : Python)

/-- `python_shell`, as far as directories go. Without code there are none. -/
def pythonShell (arguments : Arguments) : Option Used :=
  let code := py.strOr (arguments.get? (Text.of "code")) []
  if code.strip = [] then none
  else
    let sandboxId :=
      safeSandboxId py (py.strOr (arguments.get? (Text.of "sandbox_id")) (Text.of "default"))
    some {
      sandboxDir := tools.sandboxDir sandboxId
      cwd := tools.resolveUnder (tools.sandboxDir sandboxId)
        (py.strOr (arguments.get? (Text.of "cwd")) [46]) }

/-- `execute`. Other tools have no sandbox. -/
def execute (name : Text) (arguments : Arguments) : Option Used :=
  if tools.enabled ∧ name = Text.of "python_shell" ∧ tools.pythonEnabled then
    tools.pythonShell py arguments
  else none

/-- What a turn of the session does with a tool call. -/
def runToolCall (session : SessionId) (call : ToolCall) : Option Used :=
  let arguments := toolArguments py call
  tools.execute py call.name
    (if call.name = Text.of "python_shell" then
      arguments.setDefault (Text.of "sandbox_id") (.str session.text)
    else arguments)

/-- The directory of a session. -/
def home (session : SessionId) : List Text := tools.sandboxDir session.text

/-- A call uses the directory of its session, and runs in it or below. -/
structure Confined (session : SessionId) (call : ToolCall) : Prop where
  dir : ∀ used ∈ tools.runToolCall py session call, used.sandboxDir = tools.home session
  cwd : ∀ used ∈ tools.runToolCall py session call, ∀ cwd ∈ used.cwd, used.sandboxDir <+: cwd

/-- Two calls use the directories of their sessions, and not the same one. -/
structure Isolated (session : SessionId) (call : ToolCall) (session' : SessionId)
    (call' : ToolCall) : Prop where
  first : tools.Confined py session call
  second : tools.Confined py session' call'
  apart : ∀ used ∈ tools.runToolCall py session call,
    ∀ used' ∈ tools.runToolCall py session' call', used.sandboxDir ≠ used'.sandboxDir

/-- The arguments of a call that has a sandbox name none, or the one of the session. -/
def NamesOwn (session : SessionId) (call : ToolCall) : Prop :=
  tools.enabled → tools.pythonEnabled → call.name = Text.of "python_shell" →
    (py.strOr ((toolArguments py call).get? (Text.of "code")) []).strip ≠ [] →
      ∀ value ∈ (toolArguments py call).get? (Text.of "sandbox_id"),
        safeSandboxId py (py.strOr (some value) (Text.of "default")) = session.text

end ToolExecutor

/-! ## The id of a session is the name of its directory -/

variable {py : Python} {tools : ToolExecutor} {session session' : SessionId}
  {call call' : ToolCall}

theorem hexDigit_val (d : Fin 16) :
    48 ≤ (Json.hexDigit d).val ∧ (Json.hexDigit d).val ≤ 57 ∨
      97 ≤ (Json.hexDigit d).val ∧ (Json.hexDigit d).val ≤ 122 := by
  revert d
  decide

theorem hexDigit_injective : Function.Injective Json.hexDigit := by
  intro a b
  revert a b
  decide

theorem SessionId.text_injective : Function.Injective SessionId.text := by
  intro s t h
  have hdigits := List.map_injective_iff.mpr hexDigit_injective
    (List.append_cancel_left h)
  cases s
  cases t
  cases hdigits
  rfl

theorem isAlnum_hexDigit (py : Python) (d : Fin 16) : py.isAlnum (Json.hexDigit d) = true := by
  rcases hexDigit_val d with ⟨h, h'⟩ | ⟨h, h'⟩
  · exact py.isAlnum_digit _ h h'
  · exact py.isAlnum_lower _ h h'

theorem isEdge_hexDigit (d : Fin 16) : isEdge (Json.hexDigit d) = false := by
  revert d
  decide

theorem safeSandboxId_text (py : Python) (session : SessionId) :
    safeSandboxId py session.text = session.text := by
  have hlower : ∀ c : CodePoint, 97 ≤ c.val → c.val ≤ 122 → (py.isAlnum c || isEdge c) = true :=
    fun c h h' => by rw [py.isAlnum_lower c h h']; rfl
  have hkept : session.text.map (fun c => if py.isAlnum c || isEdge c then c else 95)
      = session.text := by
    refine (List.map_congr_left fun c hc => if_pos ?_).trans (List.map_id _)
    rcases List.mem_append.mp hc with hc | hc
    · simp only [List.mem_cons, List.not_mem_nil, or_false] at hc
      rcases hc with rfl | rfl | rfl | rfl
      · exact hlower _ (by decide) (by decide)
      · exact hlower _ (by decide) (by decide)
      · exact hlower _ (by decide) (by decide)
      · exact Bool.or_true _
    · obtain ⟨d, -, rfl⟩ := List.mem_map.mp hc
      rw [isAlnum_hexDigit]
      rfl
  -- neither end of an id is cut off
  have hend : ∃ t d, session.text = t ++ [Json.hexDigit d] := by
    have hne : session.digits ≠ [] := fun h => by
      have hlength := session.length_digits
      rw [h] at hlength
      cases hlength
    refine ⟨[115, 101, 115, 95] ++ session.digits.dropLast.map Json.hexDigit,
      session.digits.getLast hne, ?_⟩
    conv_lhs => rw [SessionId.text, ← List.dropLast_concat_getLast hne, List.map_append]
    rw [List.append_assoc]
    rfl
  have hcleaned : (session.text.dropWhile isEdge).rdropWhile isEdge = session.text := by
    have hdrop : session.text.dropWhile isEdge = session.text :=
      List.dropWhile_cons_of_neg (by decide)
    obtain ⟨t, d, ht⟩ := hend
    rw [hdrop, ht, List.rdropWhile_concat_neg _ _ _ (by rw [isEdge_hexDigit]; decide)]
  have htake : session.text.take 80 = session.text := by
    refine List.take_of_length_le ?_
    rw [SessionId.text, List.length_append, List.length_map, session.length_digits]
    decide
  have hid : cleanedId py session.text = session.text := by
    rw [cleanedId, hkept, hcleaned, htake]
  rw [safeSandboxId, hid]
  exact if_neg (List.cons_ne_nil _ _)

/-- An id that was made safe is the name of a directory. -/
theorem safeSandboxId_name (py : Python) (value : Text) :
    47 ∉ safeSandboxId py value ∧ (safeSandboxId py value).head? ≠ some 46 ∧
      safeSandboxId py value ≠ [] := by
  unfold safeSandboxId
  split
  · decide
  · rename_i hne
    have hstart : cleanedId py value <+:
        (value.map fun c => if py.isAlnum c || isEdge c then c else 95).dropWhile isEdge :=
      (List.take_prefix 80 _).trans (List.rdropWhile_prefix isEdge _)
    refine ⟨fun hmem => ?_, fun hhead => ?_, hne⟩
    · have hmem := (List.dropWhile_sublist isEdge).subset (hstart.subset hmem)
      obtain ⟨c, -, hc⟩ := List.mem_map.mp hmem
      split at hc
      · rename_i hkept
        rw [hc, py.isAlnum_slash] at hkept
        exact absurd hkept (by decide)
      · exact absurd hc (by decide)
    · obtain ⟨t, ht⟩ := List.head?_eq_some_iff.mp hhead
      rw [ht] at hstart
      obtain ⟨rest, hrest⟩ := hstart
      have hfirst := List.dropWhile_get_zero_not isEdge
        (value.map fun c => if py.isAlnum c || isEdge c then c else 95)
      generalize List.dropWhile isEdge _ = kept at hrest hfirst
      subst hrest
      exact hfirst (Nat.succ_pos _) rfl

namespace ToolExecutor

theorem sandboxDir_injective {a b : Text}
    (h : tools.sandboxDir (safeSandboxId py a) = tools.sandboxDir (safeSandboxId py b)) :
    safeSandboxId py a = safeSandboxId py b := by
  obtain ⟨ha, ha', ha''⟩ := safeSandboxId_name py a
  obtain ⟨hb, hb', hb''⟩ := safeSandboxId_name py b
  rw [sandboxDir, sandboxDir, tools.resolve_sandbox _ ha ha' ha'',
    tools.resolve_sandbox _ hb hb' hb''] at h
  exact (List.cons.inj (List.append_cancel_left h)).1

theorem home_eq (py : Python) (tools : ToolExecutor) (session : SessionId) :
    tools.home session = tools.sandboxDir (safeSandboxId py session.text) := by
  rw [home, safeSandboxId_text]

/-- Two sessions have two directories. -/
theorem home_injective (py : Python) (h : tools.home session = tools.home session') : session = session' := by
  rw [home_eq py, home_eq py] at h
  have hsame := sandboxDir_injective h
  rw [safeSandboxId_text, safeSandboxId_text] at hsame
  exact SessionId.text_injective hsame

/-! ## What a call uses -/

theorem resolveUnder_prefix {root resolved : List Text} {supplied : Text}
    (h : tools.resolveUnder root supplied = some resolved) : root <+: resolved := by
  obtain ⟨raw, -, h⟩ := Option.bind_eq_some_iff.mp h
  exact List.isPrefixOf_iff_prefix.mp (Option.filter_eq_some_iff.mp h).2

theorem get?_setDefault_other (arguments : Arguments) {key key' : Text} {value : Json}
    (h : key' ≠ key) : (arguments.setDefault key value).get? key' = arguments.get? key' := by
  unfold Arguments.setDefault
  split
  · rfl
  · simp [Arguments.get?, Json.get?, List.lookup_cons, beq_eq_false_iff_ne.mpr h]

theorem get?_setDefault_self (arguments : Arguments) (key : Text) (value : Json) :
    (arguments.setDefault key value).get? key = some ((arguments.get? key).getD value) := by
  unfold Arguments.setDefault
  split
  · rename_i h
    obtain ⟨j, hj⟩ := Option.isSome_iff_exists.mp h
    rw [hj]
    rfl
  · rename_i h
    rw [Option.not_isSome_iff_eq_none.mp h]
    simp [Arguments.get?, Json.get?]

variable (py tools call) in
/-- The tool is there, and there is code to run. -/
def Runs : Prop :=
  tools.enabled = true ∧ tools.pythonEnabled = true ∧ call.name = Text.of "python_shell" ∧
    (py.strOr ((toolArguments py call).get? (Text.of "code")) []).strip ≠ []

variable (py session call) in
/-- The id that the tool is given. -/
def givenId : Text :=
  py.strOr (some (((toolArguments py call).get? (Text.of "sandbox_id")).getD (.str session.text)))
    (Text.of "default")

variable (session) in
theorem runToolCall_of_runs (h : Runs py tools call) :
    ∃ cwd, tools.runToolCall py session call
      = some ⟨tools.sandboxDir (safeSandboxId py (givenId py session call)), cwd⟩ := by
  obtain ⟨henabled, hpython, hname, hcode⟩ := h
  have hother : Text.of "code" ≠ Text.of "sandbox_id" := by decide
  rw [runToolCall, execute, if_pos ⟨henabled, hname, hpython⟩, if_pos hname, pythonShell]
  simp only [get?_setDefault_other _ hother, get?_setDefault_self]
  exact ⟨_, if_neg hcode⟩

theorem runs_of_runToolCall {used : Used} (h : tools.runToolCall py session call = some used) :
    Runs py tools call := by
  rw [runToolCall, execute] at h
  split at h
  · rename_i hthere
    obtain ⟨henabled, hname, hpython⟩ := hthere
    have hother : Text.of "code" ≠ Text.of "sandbox_id" := by decide
    rw [if_pos hname, pythonShell] at h
    simp only [get?_setDefault_other _ hother] at h
    split at h
    · cases h
    · rename_i hcode
      exact ⟨henabled, hpython, hname, hcode⟩
  · cases h

theorem cwd_prefix {used : Used} (h : tools.runToolCall py session call = some used) :
    ∀ cwd ∈ used.cwd, used.sandboxDir <+: cwd := by
  rw [runToolCall, execute] at h
  split at h
  · rename_i hthere
    rw [if_pos hthere.2.1, pythonShell] at h
    simp only at h
    split at h
    · cases h
    · cases h
      exact fun cwd hcwd => resolveUnder_prefix hcwd
  · cases h

theorem namesOwn_iff : tools.NamesOwn py session call ↔
    (Runs py tools call → safeSandboxId py (givenId py session call) = session.text) := by
  have hself : py.strOr (some (.str session.text)) (Text.of "default") = session.text := rfl
  constructor
  · rintro h ⟨henabled, hpython, hname, hcode⟩
    have hvalue := h henabled hpython hname hcode
    unfold givenId
    cases hget : (toolArguments py call).get? (Text.of "sandbox_id") with
    | none => rw [Option.getD_none, hself, safeSandboxId_text]
    | some value => exact hvalue value hget
  · intro h henabled hpython hname hcode value hvalue
    have hown := h ⟨henabled, hpython, hname, hcode⟩
    rw [givenId, Option.mem_def.mp hvalue] at hown
    exact hown

/-- A call is confined exactly if the id it names is that of its session. -/
theorem confined_iff : tools.Confined py session call ↔ tools.NamesOwn py session call := by
  rw [namesOwn_iff]
  constructor
  · intro h hruns
    obtain ⟨cwd, hrun⟩ := runToolCall_of_runs session hruns
    have hdir := h.dir _ hrun
    rw [home_eq py] at hdir
    rw [sandboxDir_injective hdir, safeSandboxId_text]
  · intro h
    refine ⟨fun used hused => ?_, fun used hused => cwd_prefix hused⟩
    have hruns := runs_of_runToolCall hused
    obtain ⟨cwd, hrun⟩ := runToolCall_of_runs session hruns
    cases hused.symm.trans hrun
    rw [h hruns]
    rfl

end ToolExecutor

/-! ## Samples -/

/-- Python, for what is written in ASCII. -/
def asciiPython : Python where
  str _ := []
  nonzero n := n.whole ≠ 0 ∨ ∃ d ∈ n.fraction, d ≠ 0
  isAlnum c := decide (48 ≤ c.val ∧ c.val ≤ 57) || decide (65 ≤ c.val ∧ c.val ≤ 90) ||
    decide (97 ≤ c.val ∧ c.val ≤ 122)
  isAlnum_digit c h h' := by simp [h, h']
  isAlnum_lower c h h' := by simp [h, h']
  isAlnum_slash := by decide

/-- A path without the parts that go up. -/
def goUp (parts : List Text) : List Text :=
  parts.foldl (fun done part => if part = [46, 46] then done.dropLast else done ++ [part]) []

/-- A file system without links and without a home directory. -/
def plainTools : ToolExecutor where
  enabled := true
  pythonEnabled := true
  sandboxRoot := [Text.of "sandboxes"]
  expanduser path := if path.slashes = 0 ∧ path.parts.head?.bind List.head? = some 126 then none
    else some path
  resolve := goUp
  resolve_sandbox id _ hhead _ := by
    have hup : id ≠ [46, 46] := by
      rintro rfl
      exact hhead rfl
    simp only [goUp, List.cons_append, List.nil_append, List.foldl_cons, List.foldl_nil]
    rw [if_neg (by decide), if_neg hup, if_neg (by decide)]
    rfl

def sessionOf (d : Fin 16) : SessionId := ⟨List.replicate 16 d, List.length_replicate⟩

/-- `python_shell` with code, and an id if there is one. -/
def shellCall (sandboxId : List (Text × Json)) : ToolCall where
  name := Text.of "python_shell"
  arguments := some (.obj ((Text.of "code", .str [49]) :: sandboxId))

theorem namesOwn_plain (session : SessionId) :
    plainTools.NamesOwn asciiPython session (shellCall []) := by
  intro _ _ _ _ value hvalue
  have hnone : (toolArguments asciiPython (shellCall [])).get? (Text.of "sandbox_id") = none := rfl
  rw [hnone] at hvalue
  cases hvalue

end Exo.PythonShell
