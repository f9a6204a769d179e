import MediaPipeline.Proofs.Feature.Arguments
import MediaPipeline.Transcoder
/-!
# Transcoder — who says what in an invocation

An invocation starts with what the engine says: two fixed arguments, whether an
output that exists is overwritten, and an input flag before the path of every
input. The arguments of the command follow, and the path of the output stands at
the end. `FlagsKept` says by position that the command does not interfere: apart
from the paths, which may be any text, the only input flags and the only
overwrite flag stand where the engine put them. This holds where the command is
harmless (`flagsKept_of_harmless`), and so for every feature of this library
(`builtin_injects_nothing`).
-/


namespace MediaPipeline

namespace Transcoder

variable {t : Transcoder} {r : Request} {output : FilePath} {inputs : List Artifact}
variable {i k : Nat} {arg : String}

/-! ## The arguments by position -/

theorem length_inputArgs (inputs : List Artifact) :
    (inputArgs inputs).length = 2 * inputs.length := by
  unfold inputArgs
  simp [List.length_flatMap, Nat.mul_comm]

/-- The path of an input stands behind its flag. -/
theorem getElem?_inputArgs_path (inputs : List Artifact) (k : Nat) :
    (inputArgs inputs)[2 * k + 1]? = inputs[k]?.map (·.path.text) := by
  induction inputs generalizing k with
  | nil => rfl
  | cons a inputs ih =>
    cases k with
    | zero => rfl
    | succ k => exact ih k

/-- An argument that names the inputs is the flag of one or the path of one. -/
theorem flag_or_path_of_inputArgs (h : (inputArgs inputs)[i]? = some arg) :
    (∃ k < inputs.length, i = 2 * k ∧ arg = "-i") ∨ ∃ k < inputs.length, i = 2 * k + 1 := by
  induction inputs generalizing i with
  | nil => cases h
  | cons a inputs ih =>
    match i, h with
    | 0, h => exact .inl ⟨0, Nat.succ_pos _, rfl, (Option.some.inj h).symm⟩
    | 1, _ => exact .inr ⟨0, Nat.succ_pos _, rfl⟩
    | i + 2, h =>
      have hrest : (inputArgs inputs)[i]? = some arg := h
      rcases ih hrest with ⟨k, hk, rfl, harg⟩ | ⟨k, hk, rfl⟩
      · exact .inl ⟨k + 1, Nat.succ_lt_succ hk, rfl, harg⟩
      · exact .inr ⟨k + 1, Nat.succ_lt_succ hk, rfl⟩

/-- Where the arguments of the command start. -/
def commandPlace (r : Request) : Nat := 3 + 2 * r.inputs.length

/-- The places of paths: one behind each input flag, and the last one. -/
def IsPathPlace (r : Request) (i : Nat) : Prop :=
  (∃ k < r.inputs.length, i = 4 + 2 * k) ∨ i = commandPlace r + r.command.args.length + 2

theorem args_eq (t : Transcoder) (r : Request) (output : FilePath) :
    (t.invocation r output).args = "-hide_banner" :: "-nostdin" ::
      (if t.overwrite then "-y" else "-n") :: (inputArgs r.inputs ++
        (r.command.args ++ ["-threads", toString t.threads, output.text])) := by
  simp [invocation]

/-- Who says the argument at a place: the engine in front of the command, a path,
or else the command or one of the two arguments that say the number of threads. -/
inductive Says (t : Transcoder) (r : Request) : Nat → String → Prop
  | banner : Says t r 0 "-hide_banner"
  | nostdin : Says t r 1 "-nostdin"
  | overwrite : Says t r 2 (if t.overwrite then "-y" else "-n")
  | input {k : Nat} (hk : k < r.inputs.length) : Says t r (3 + 2 * k) "-i"
  | path {i : Nat} {arg : String} (hplace : IsPathPlace r i) : Says t r i arg
  | behind {i : Nat} {arg : String} (hplace : commandPlace r ≤ i)
      (harg : arg ∈ r.command.args ∨ arg = "-threads" ∨ arg = toString t.threads) : Says t r i arg

/-- **Who says what.** Every argument of an invocation is said by one of them. -/
theorem says_of_args (h : (t.invocation r output).args[i]? = some arg) : Says t r i arg := by
  rw [args_eq] at h
  match i, h with
  | 0, h =>
    cases h
    exact .banner
  | 1, h =>
    cases h
    exact .nostdin
  | 2, h =>
    cases h
    exact .overwrite
  | i + 3, h =>
    replace h : (inputArgs r.inputs ++
      (r.command.args ++ ["-threads", toString t.threads, output.text]))[i]? = some arg := h
    rw [List.getElem?_append] at h
    split at h
    · rcases flag_or_path_of_inputArgs h with ⟨k, hk, rfl, rfl⟩ | ⟨k, hk, rfl⟩
      · rw [Nat.add_comm]
        exact .input hk
      · exact .path (.inl ⟨k, hk, by omega⟩)
    · rename_i hinputs
      rw [length_inputArgs] at h hinputs
      -- what is left stands behind the inputs
      have hplace : commandPlace r ≤ i + 3 := by unfold commandPlace; omega
      rw [List.getElem?_append] at h
      split at h
      · exact .behind hplace (.inl (List.mem_of_getElem? h))
      · rename_i hcommand
        generalize hj : i - 2 * r.inputs.length - r.command.args.length = j at h
        match j, h with
        | 0, h => exact .behind hplace (.inr (.inl (Option.some.inj h).symm))
        | 1, h => exact .behind hplace (.inr (.inr (Option.some.inj h).symm))
        | 2, _ =>
          refine .path (.inr ?_)
          unfold commandPlace
          omega

/-- **An invocation whose flags are the engine's.** The paths of the inputs
stand behind their flags, the arguments of the command stand together, and the
path of the output is the last one. Apart from these paths the one overwrite
flag is the one that the engine chose, in its place, and the input flags are
those in front of the paths of the inputs; so no argument of the command is
one. -/
structure FlagsKept (t : Transcoder) (r : Request) (output : FilePath) (args : List String) :
    Prop where
  input : ∀ k a, r.inputs[k]? = some a → args[4 + 2 * k]? = some a.path.text
  command : (args.drop (commandPlace r)).take r.command.args.length = r.command.args
  length : args.length = commandPlace r + r.command.args.length + 3
  last : args.getLast? = some output.text
  overwrite : args[2]? = some (if t.overwrite then "-y" else "-n")
  overwriteFlags : ∀ i arg, args[i]? = some arg → ¬ IsPathPlace r i →
    (arg = "-y" ∨ arg = "-n" ↔ i = 2)
  inputFlags : ∀ i arg, args[i]? = some arg → ¬ IsPathPlace r i →
    (arg = "-i" ↔ ∃ k < r.inputs.length, i = 3 + 2 * k)

/-- What stands behind the inputs, apart from the output, is no flag of the
engine. -/
theorem not_flag_behind (h : r.command.Harmless)
    (harg : arg ∈ r.command.args ∨ arg = "-threads" ∨ arg = toString t.threads) :
    arg ≠ "-i" ∧ arg ≠ "-y" ∧ arg ≠ "-n" := by
  rcases harg with harg | rfl | rfl
  · exact (h.harmless arg harg).not_flag
  · decide
  · exact (Text.numeric_toString t.threads).harmless.not_flag

/-- **A harmless command leaves the flags to the engine.** -/
theorem flagsKept_of_harmless (h : r.command.Harmless) (t : Transcoder) (output : FilePath) :
    FlagsKept t r output (t.invocation r output).args where
  input k a ha := by
    have hk : k < r.inputs.length := (List.getElem?_eq_some_iff.mp ha).1
    have hplace : 4 + 2 * k = (2 * k + 1) + 3 := by omega
    have hlength : 2 * k + 1 < (inputArgs r.inputs).length := by
      rw [length_inputArgs]
      omega
    rw [args_eq, hplace]
    show (inputArgs r.inputs ++ _)[2 * k + 1]? = _
    rw [List.getElem?_append_left hlength, getElem?_inputArgs_path, ha]
    rfl
  command := by
    rw [args_eq, commandPlace, Nat.add_comm 3]
    show ((inputArgs r.inputs ++ _).drop (2 * r.inputs.length)).take _ = _
    rw [List.drop_left' (length_inputArgs r.inputs), List.take_left' rfl]
  length := by
    rw [args_eq]
    simp [length_inputArgs, commandPlace]
    omega
  last := by
    have hend (before after : List String) :
        (before ++ (after ++ [output.text])).getLast? = some output.text := by
      rw [← List.append_assoc, List.getLast?_concat]
    exact hend _ ["-threads", toString t.threads]
  overwrite := by
    rw [args_eq]
    rfl
  overwriteFlags i arg harg hpath := by
    cases says_of_args harg with
    | banner => decide
    | nostdin => decide
    | overwrite => cases t.overwrite <;> decide
    | input hk => exact iff_of_false (by decide) (by omega)
    | path hplace => exact absurd hplace hpath
    | behind hplace hsaid =>
      obtain ⟨-, hy, hn⟩ := not_flag_behind h hsaid
      unfold commandPlace at hplace
      exact iff_of_false (fun hflag => hflag.elim hy hn) (by omega)
  inputFlags i arg harg hpath := by
    cases says_of_args harg with
    | banner => exact iff_of_false (by decide) fun ⟨k, _, hk⟩ => by omega
    | nostdin => exact iff_of_false (by decide) fun ⟨k, _, hk⟩ => by omega
    | overwrite =>
      exact iff_of_false (by cases t.overwrite <;> decide) fun ⟨k, _, hk⟩ => by omega
    | input hk => exact iff_of_true rfl ⟨_, hk, rfl⟩
    | path hplace => exact absurd hplace hpath
    | behind hplace hsaid =>
      obtain ⟨hi, -, -⟩ := not_flag_behind h hsaid
      unfold commandPlace at hplace
      exact iff_of_false hi fun ⟨k, hk, hflag⟩ => by omega

end Transcoder

/-- **No feature of this library says more than it may.** Whatever the
configuration is that it compiles, the command has arguments, each is one word
and none is a flag of the engine; so the command is written in one line without
a loss, and in every invocation with it, for any inputs and any output, the
flags are the engine's. -/
theorem builtin_injects_nothing {e : Entry} (he : e ∈ FeatureCatalog.builtin.entries)
    {c : Configuration} {command : Command} (h : e.feature.compile c = .ok command) :
    command.Harmless ∧ Text.words command.text = command.args ∧
      ∀ (t : Transcoder) (r : Request) (output : FilePath), r.command = command →
        Transcoder.FlagsKept t r output (t.invocation r output).args := by
  have hcommand := harmless_of_compile he h
  exact ⟨hcommand, hcommand.words_text, fun t r output hr =>
    Transcoder.flagsKept_of_harmless (hr ▸ hcommand) t output⟩

/-- What a user may write, with blanks of several kinds. -/
def Configuration.flipped : Configuration :=
  Configuration.empty.set "CUSTOM_RUN" (.text "  -vf\tvflip\u3000-c:a\u00a0copy ")

theorem builtin_injects_nothing_flipped :
    ∃ command, Entry.customRun.feature.compile .flipped = .ok command ∧
      Text.words command.text = ["-vf", "vflip", "-c:a", "copy"] ∧
        ∀ (t : Transcoder) (r : Request) (output : FilePath), r.command = command →
          Transcoder.FlagsKept t r output (t.invocation r output).args := by
  have hcompile : Entry.customRun.feature.compile .flipped =
      .ok ⟨["-vf", "vflip", "-c:a", "copy"], none⟩ := by rfl
  have hmem : Entry.customRun ∈ FeatureCatalog.builtin.entries := by
    simp [FeatureCatalog.builtin]
  obtain ⟨-, hwords, hflags⟩ := builtin_injects_nothing hmem hcompile
  exact ⟨_, hcompile, hwords, hflags⟩

end MediaPipeline
