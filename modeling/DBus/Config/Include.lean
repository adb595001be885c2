/-
  Including configuration files: `include_file` and `include_dir` in `bus/config-parser.c`,
  `bus_config_load` in `bus/config-loader-expat.c`.

  No file is twice on the list of those that are being included, so the parsers nest at most
  two deeper than there are files: the first file is not on the list, and a file that is
  missing has a parser before it is opened (`load_includes`).
-/
import DBus.Header.Defs
import Mathlib.Data.Finset.Card

namespace DBus

open List

/-- How loading a file fails. -/
inductive LoadError where
  /-- `DBUS_ERROR_FAILED`: "Circular inclusion of file" -/
  | circular (file : List UInt8)
  /-- another error, and whether it is `DBUS_ERROR_FILE_NOT_FOUND` -/
  | other (notFound : Bool)
  /-- the model allows no more nested parsers -/
  | tooDeep

/-- What an element of a file does: `<include>`, with its full path, `<includedir>`, with the full
    paths of the files there, and the others; and the error that is set at its end. -/
inductive ConfigElement where
  | includeFile (file : List UInt8) (ignoreMissing : Bool)
  | includeDir (files : List (List UInt8)) (error : Option Bool)
  | other (error : Option Bool)

/-- The calls of `include_file`, which `include_dir` makes for each file it wants, or an error. -/
def ConfigElement.steps : ConfigElement → List (List UInt8 × Bool ⊕ Option Bool)
  | includeFile file ignoreMissing => [.inl (file, ignoreMissing)]
  | includeDir files error =>
    (files.filter (asciiBytes ".conf" <:+ ·)).map (fun file => .inl (file, true)) ++ [.inr error]
  | other error => [.inr error]

/-- The list of included files after a step, how it ended, and which files were to be included,
    with the list at that time. -/
structure LoadedFile where
  includedFiles : List (List UInt8)
  error : Option LoadError
  calls : List (List (List UInt8) × List UInt8) := []

/-- Paths are compared byte by byte. -/
local instance lawfulBEqPaths : LawfulBEq (List UInt8) := inferInstance

section
-- how a file is loaded with the list of included files
variable (load : List UInt8 → List (List UInt8) → LoadedFile)

/-- `include_file` -/
def includeFile (file : List UInt8) (ignoreMissing : Bool) (included : List (List UInt8)) : LoadedFile :=
  if file ∈ included then ⟨included, some (.circular file), [(included, file)]⟩
  else
    let l := load file (included ++ [file])
    { includedFiles := l.includedFiles.dropLast
      error := match l.error with
        | some (.other true) => if ignoreMissing then none else some (.other true)
        | error => error
      calls := (included, file) :: l.calls }

/-- The elements of a file are handled until one fails. -/
def loadSteps : List (List UInt8 × Bool ⊕ Option Bool) → List (List UInt8) → LoadedFile
  | [], included => ⟨included, none, []⟩
  | .inl (file, ignoreMissing) :: steps, included =>
    let l := includeFile load file ignoreMissing included
    if l.error.isSome then l
    else
      let l' := loadSteps steps l.includedFiles
      { l' with calls := l.calls ++ l'.calls }
  | .inr (some notFound) :: _, included => ⟨included, some (.other notFound), []⟩
  | .inr none :: steps, included => loadSteps steps included

end

section
-- the files there are, and their elements
variable (files : Finset (List UInt8)) (content : List UInt8 → List ConfigElement)

/-- `bus_config_load`, with at most `depth` parsers -/
def busConfigLoad (depth : ℕ) (file : List UInt8) (included : List (List UInt8)) : LoadedFile :=
  match depth with
  | 0 => ⟨included, some .tooDeep, []⟩
  | depth + 1 =>
    if file ∈ files then
      loadSteps (busConfigLoad depth) ((content file).flatMap ConfigElement.steps) included
    else ⟨included, some (.other true), []⟩

/-- The list is as before, and whenever a file was to be included, there were distinct files on
    it; if it was one of them, that is the error. -/
structure Loads (included : List (List UInt8)) (l : LoadedFile) : Prop where
  list : l.includedFiles = included
  deep : l.error ≠ some .tooDeep
  calls : ∀ c ∈ l.calls, c.1.Nodup ∧ (∀ f ∈ c.1, f ∈ files) ∧
    (c.2 ∈ c.1 → l.error = some (.circular c.2))

variable {files content} {load : List UInt8 → List (List UInt8) → LoadedFile}
  {included : List (List UInt8)} {file : List UInt8}

theorem Loads.none {error : Option LoadError} (h : error ≠ some .tooDeep) :
    Loads files included ⟨included, error, []⟩ :=
  ⟨rfl, h, by simp⟩

section
variable (hn : included.Nodup) (hf : ∀ f ∈ included, f ∈ files)
include hn hf

theorem Loads.includeFile (ignoreMissing : Bool)
    (h : file ∉ included → Loads files (included ++ [file]) (load file (included ++ [file]))) :
    Loads files included (includeFile load file ignoreMissing included) := by
  rw [DBus.includeFile]
  split
  · exact ⟨rfl, by simp, forall_mem_singleton.2 ⟨hn, hf, fun _ => rfl⟩⟩
  next hi =>
  obtain ⟨hl, hd, hc⟩ := h hi
  refine ⟨by simp [hl], ?_, forall_mem_cons.2 ⟨⟨hn, hf, fun h => absurd h hi⟩, fun c hm => ?_⟩⟩
  · dsimp only
    split
    · split <;> simp
    · exact hd
  · refine (hc c hm).imp_right (And.imp_right fun h hm => ?_)
    simp only [h hm]

theorem Loads.loadSteps (h : ∀ file, file ∉ included →
      Loads files (included ++ [file]) (load file (included ++ [file])))
    (steps : List (List UInt8 × Bool ⊕ Option Bool)) :
    Loads files included (loadSteps load steps included) := by
  induction steps with
  | nil => exact .none (by simp)
  | cons step steps ih =>
    rcases step with ⟨file, ignoreMissing⟩ | _ | notFound
    · rw [DBus.loadSteps]
      have hi := Loads.includeFile hn hf ignoreMissing (h file)
      split
      · exact hi
      next he =>
      rw [hi.list]
      refine ⟨ih.list, ih.deep, fun c hc => (mem_append.1 hc).elim (fun hc => ?_) (ih.calls c)⟩
      refine (hi.calls c hc).imp_right (And.imp_right fun h hm => ?_)
      simp [h hm] at he
    · exact ih
    · exact .none (by simp)

theorem length_le_card : included.length ≤ files.card := by
  rw [← toFinset_card_of_nodup hn]
  exact Finset.card_le_card fun f h => hf f (mem_toFinset.1 h)

end

theorem loads_busConfigLoad {depth : ℕ} (hn : included.Nodup) (hd : 0 < depth)
    (h : file ∈ files → (∀ f ∈ included, f ∈ files) ∧ files.card + 2 ≤ included.length + depth) :
    Loads files included (busConfigLoad files content depth file included) := by
  induction depth generalizing file included with
  | zero => omega
  | succ depth ih =>
    rw [busConfigLoad]
    split
    next hm =>
      obtain ⟨hf, hle⟩ := h hm
      have hc := length_le_card hn hf
      refine .loadSteps hn hf (fun file hi => ih (by simpa using hn.concat hi) (by omega) ?_) _
      refine fun hm => ⟨by simpa [or_imp, forall_and, hm] using hf, by simp; omega⟩
    · exact .none (by simp)

/-- **Including ends.**  The list of a call are the files being included above it, the first
    file apart: the parser it makes is below one for each of them and one for the first file. -/
theorem load_includes (files : Finset (List UInt8)) (content : List UInt8 → List ConfigElement)
    (file : List UInt8) :
    (busConfigLoad files content (files.card + 2) file []).error ≠ some .tooDeep ∧
    ∀ c ∈ (busConfigLoad files content (files.card + 2) file []).calls,
      (c.2 ∈ c.1 → (busConfigLoad files content (files.card + 2) file []).error =
        some (.circular c.2)) ∧
      (c.2 ∉ c.1 → c.1.length + 2 ≤ files.card + 2 ∧
        (c.2 ∈ files → c.1.length + 2 ≤ files.card + 1)) := by
  have h : Loads files [] (busConfigLoad files content (files.card + 2) file []) :=
    loads_busConfigLoad nodup_nil (by omega) fun _ => ⟨by simp, by simp⟩
  refine ⟨h.deep, fun c hc => ?_⟩
  obtain ⟨hn, hf, he⟩ := h.calls c hc
  refine ⟨he, fun hi => ⟨by simpa using length_le_card hn hf, fun hm => ?_⟩⟩
  have hle : (c.1.concat c.2).length ≤ files.card :=
    length_le_card (hn.concat hi) (by simpa [or_imp, forall_and, hm] using hf)
  simpa using hle

/-- One file that includes a missing one and itself: the missing one has a third parser. -/
theorem missing_third : ∃ c ∈ (busConfigLoad {[65]} (fun _ => [.includeFile [66] true,
      .includeFile [65] false]) 3 [65] []).calls,
    c.2 ∉ c.1 ∧ ({[65]} : Finset (List UInt8)).card + 1 < c.1.length + 2 := by
  refine ⟨([[65]], [66]), ?_, by decide⟩
  decide

end

end DBus
