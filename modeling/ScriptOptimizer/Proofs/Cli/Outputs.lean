import ScriptOptimizer.Cli.Run
import ScriptOptimizer.Harmony.Statement
import ScriptOptimizer.Pattern.Check
import ScriptOptimizer.Proofs.Files.Writing
import ScriptOptimizer.Proofs.Pass.LiteralWalks
import ScriptOptimizer.Proofs.Pass.Together
import ScriptOptimizer.Proofs.Text.Pieces

/-!
What a batch leaves in its folder. The text of an input goes to a file that has the name of the
input without its extension, whatever folder the input is in. So each input has a file of its own
just if no two of them share that name, and a file of each name can be created.
-/

namespace ScriptOptimizer

open FileTree (IsPlain Takes store storeAll)

namespace Path

/-- The last element of a path. -/
def name (path : Bytes) : Bytes := ((Bytes.splitOn 47 path).getLast?).getD []

/-- The last element of a path up to its last dot. -/
def stem (path : Bytes) : Bytes :=
  if 46 ∈ name path then ((name path).reverse.dropWhile (· ≠ 46)).tail.reverse else name path

variable {path : Bytes}

theorem splitOn_eq (path : Bytes) :
    Bytes.splitOn 47 path = (Bytes.splitOn 47 path).dropLast ++ [name path] := by
  rw [name, List.getLast?_eq_some_getLast Bytes.splitOn_ne_nil, Option.getD_some]
  exact (List.dropLast_concat_getLast _).symm

theorem slash_not_mem_name (path : Bytes) : 47 ∉ name path := by
  have hMem : name path ∈ Bytes.splitOn 47 path := by
    rw [splitOn_eq path]
    simp
  exact Bytes.not_mem_of_mem_splitOn hMem

theorem slash_not_mem_stem (path : Bytes) : 47 ∉ stem path := by
  intro h
  unfold stem at h
  split at h
  · have hRest := List.mem_of_mem_tail (List.mem_reverse.1 h)
    exact slash_not_mem_name path (List.mem_reverse.1 ((List.dropWhile_suffix _).subset hRest))
  · exact slash_not_mem_name path h

theorem baseName_eq (h : name path ≠ []) : baseName path = name path := by
  have hNe : path ≠ [] := by
    rintro rfl
    exact h rfl
  have hLast : path.getLast hNe ≠ 47 := by
    intro hSlash
    rw [← List.dropLast_concat_getLast hNe, hSlash, name,
      Bytes.splitOn_concat _ List.not_mem_nil] at h
    simp at h
  have hTrim : Bytes.trimEnd (· = 47) path = path := by
    rw [Bytes.trimEnd]
    conv_lhs => rw [← List.dropLast_concat_getLast hNe]
    rw [List.reverse_concat, List.dropWhile_cons_of_neg (by simpa using hLast),
      ← List.reverse_concat, List.reverse_reverse, List.dropLast_concat_getLast]
  rw [baseName, if_neg hNe]
  simp only [hTrim, if_neg hNe]
  rfl

/-- A path to a file inside a folder ends with the name of the file. -/
theorem splitOn_inside (folder : Bytes) {name : Bytes} (hSlash : 47 ∉ name) (h : IsPlain name) :
    ∃ parts, Bytes.splitOn 47 (inside folder name) = parts ++ [name] := by
  have hAdd (rooted : Bool) (done : List Bytes) : addPart rooted done name = done ++ [name] := by
    simp only [IsPlain, List.mem_cons, List.not_mem_nil, or_false, not_or] at h
    simp [addPart, h.1, h.2.1, h.2.2]
  have hJoin (done : List Bytes) :
      ∃ parts, Bytes.splitOn 47 (Bytes.join "/" (done ++ [name])) = parts ++ [name] := by
    by_cases hDone : done = []
    · exact ⟨[], by rw [hDone]; exact Bytes.splitOn_of_not_mem hSlash⟩
    · refine ⟨Bytes.splitOn 47 (Bytes.join "/" done), ?_⟩
      rw [Bytes.join_concat hDone, List.append_assoc]
      exact Bytes.splitOn_concat _ hSlash
  rw [inside, clean, Bytes.splitOn_concat folder hSlash, List.foldl_append, List.foldl_cons,
    List.foldl_nil, hAdd]
  obtain ⟨parts, hParts⟩ := hJoin ((Bytes.splitOn 47 folder).foldl
    (addPart (decide ((folder ++ 47 :: name).head? = some 47))) [])
  split
  · exact ⟨[] :: parts, by rw [Bytes.splitOn_cons, if_pos rfl, hParts]; rfl⟩
  · split
    · rename_i hNil
      rw [hNil] at hParts
      have hName : name = [] := by
        have hLast := congrArg List.getLast? hParts
        rw [List.getLast?_concat] at hLast
        exact (Option.some.inj hLast).symm
      exact absurd h (by simp [IsPlain, hName])
    · exact ⟨parts, hParts⟩

end Path

namespace Cli

/-- The last part of the name of an output file. -/
def ending (format : Bytes) : Bytes :=
  if format = Bytes.ofString "estree" then ".json"
  else if format = Bytes.ofString "js" then ".js"
  else ".txt"

/-- The path that takes the text of an input. -/
def outputPath (a : Arguments) (path : Bytes) : Bytes :=
  Path.inside a.output (outputName path a.format)

variable {path format : Bytes}

theorem takeWhile_dot (front : Bytes) {tail : Bytes} (h : 46 ∉ tail) :
    (tail ++ 46 :: front).takeWhile (· ≠ 46) = tail ∧
      (tail ++ 46 :: front).dropWhile (· ≠ 46) = 46 :: front := by
  have hAll : ∀ b ∈ tail, decide (b ≠ 46) = true := by
    intro b hb
    simpa using fun hEq : b = 46 => h (hEq ▸ hb)
  rw [List.takeWhile_append_of_pos hAll, List.dropWhile_append_of_pos hAll]
  simp

/-- What a name is cut into: the stem, and the extension from the last dot on. -/
theorem extension_cases (path : Bytes) : Path.name path = Path.stem path ++ extension path := by
  have hExtension : extension path =
      if ((Path.name path).reverse.takeWhile (· ≠ 46)).length = (Path.name path).length then []
      else 46 :: ((Path.name path).reverse.takeWhile (· ≠ 46)).reverse := rfl
  by_cases hDot : (46 : UInt8) ∈ Path.name path
  · obtain ⟨tail, front, hReverse, hTail⟩ :=
      List.eq_append_cons_of_mem (List.mem_reverse.2 hDot)
    obtain ⟨hTake, hDrop⟩ := takeWhile_dot front hTail
    have hName : Path.name path = front.reverse ++ 46 :: tail.reverse := by
      rw [← List.reverse_reverse (Path.name path), hReverse]
      simp
    have hLength : tail.length ≠ (Path.name path).length := by
      rw [hName]
      simp
      omega
    rw [hExtension, Path.stem, if_pos hDot, hReverse, hTake, hDrop, if_neg hLength, hName]
    rfl
  · have hTake : (Path.name path).reverse.takeWhile (· ≠ 46) = (Path.name path).reverse := by
      have hAll : ∀ b ∈ (Path.name path).reverse, decide (b ≠ 46) = true := by
        intro b hb
        simpa using fun hEq : b = 46 => hDot (hEq ▸ List.mem_reverse.1 hb)
      rw [← List.append_nil (Path.name path).reverse, List.takeWhile_append_of_pos hAll]
      rfl
    rw [hExtension, Path.stem, if_neg hDot, hTake, if_pos List.length_reverse, List.append_nil]

/-- An output file has the name of its input up to the last dot. -/
theorem outputName_eq (h : Path.name path ≠ []) :
    outputName path format = Path.stem path ++ ending format := by
  have hEnding : Bytes.ofString (if format = Bytes.ofString "estree" then ".json"
      else if format = Bytes.ofString "js" then ".js" else ".txt") = ending format := by
    unfold ending
    repeat' split
    all_goals rfl
  have hName := extension_cases path
  have hEnds : (Path.name path).reverse.take (extension path).length =
      (extension path).reverse := by
    rw [hName, List.reverse_append, List.take_left' List.length_reverse]
  have hStem : (Path.name path).take ((Path.name path).length - (extension path).length) =
      Path.stem path := by
    rw [hName, List.length_append, Nat.add_sub_cancel, List.take_left]
  rw [outputName, Path.baseName_eq h]
  simp only [hEnds, if_true, hStem, hEnding]

/-- What an output file is called leads along no path. -/
theorem isPlain_outputName (format : Bytes) (h : Path.name path ≠ []) :
    47 ∉ outputName path format ∧ IsPlain (outputName path format) := by
  rw [outputName_eq h]
  constructor
  · rw [List.mem_append, not_or]
    refine ⟨Path.slash_not_mem_stem path, ?_⟩
    unfold ending
    repeat' split
    all_goals decide
  · have hLength : 3 ≤ (ending format).length := by
      unfold ending
      repeat' split
      all_goals decide
    intro hMem
    have hShort : ∀ special ∈ ([[], ".", ".."] : List Bytes), special.length ≤ 2 := by decide
    have := hShort _ hMem
    rw [List.length_append] at this
    omega

variable {a : Arguments} {t : FileTree} {place : PathParts}

/-- Two inputs are written to the same file just if their names are the same up to the last
dot. -/
theorem stem_eq_of_takes {other : Bytes} (hPath : Path.name path ≠ [])
    (hOther : Path.name other ≠ []) (h : t.Takes (outputPath a path) place)
    (h' : t.Takes (outputPath a other) place) : Path.stem path = Path.stem other := by
  obtain ⟨hSlash, hPlain⟩ := isPlain_outputName a.format hPath
  obtain ⟨hSlash', hPlain'⟩ := isPlain_outputName a.format hOther
  obtain ⟨parts, hParts⟩ := Path.splitOn_inside a.output hSlash hPlain
  obtain ⟨parts', hParts'⟩ := Path.splitOn_inside a.output hSlash' hPlain'
  have hName : outputName path a.format = outputName other a.format := by
    have hLast := h.getLast?_eq hParts hPlain
    rw [h'.getLast?_eq hParts' hPlain'] at hLast
    exact (Option.some.inj hLast).symm
  rw [outputName_eq hPath, outputName_eq hOther] at hName
  exact List.append_cancel_right hName

theorem outputPath_ne_nil (h : Path.name path ≠ []) : outputPath a path ≠ [] := by
  intro hNil
  obtain ⟨hSlash, hPlain⟩ := isPlain_outputName a.format h
  obtain ⟨parts, hParts⟩ := Path.splitOn_inside a.output hSlash hPlain
  change Bytes.splitOn 47 (outputPath a path) = _ at hParts
  rw [hNil] at hParts
  have hName := congrArg List.getLast? hParts
  rw [List.getLast?_concat] at hName
  rw [← Option.some.inj hName] at hPlain
  exact hPlain (by decide)

theorem outputPath_congr {other : Bytes} (hPath : Path.name path ≠ [])
    (hOther : Path.name other ≠ []) (h : Path.stem path = Path.stem other) :
    outputPath a path = outputPath a other := by
  rw [outputPath, outputPath, outputName_eq hPath, outputName_eq hOther, h]

section

variable [PatternCheck] [ScriptReader]

/-- A file that was compiled has a name. -/
theorem name_ne_nil {o : Options} {c : Compiled} (h : (Job.ofPath path).run o t = .ok c) :
    Path.name path ≠ [] := by
  have hRead : ∃ text, t.read path = .ok text := by
    cases hText : t.read path with
    | ok text => exact ⟨text, rfl⟩
    | error reason => simp [Job.run, Job.ofPath, FileTree.source, hText, Except.map] at h
  obtain ⟨text, hText⟩ := hRead
  obtain ⟨place, hTakes⟩ := FileTree.takes_of_read hText
  exact hTakes.last_ne_nil (Path.splitOn_eq path)

/-! ### The files after a batch -/

variable {o : Options} {s : Surroundings} {r : Report} {W : FileTree}

/-- Every input of the call compiles among these files. -/
def AllCompile (a : Arguments) (o : Options) (W : FileTree) : Prop :=
  ∀ path ∈ a.inputs, ∃ c, (Job.ofPath path).run o W = .ok c

/-- What is written for an input. -/
def textOf (a : Arguments) (o : Options) (s : Surroundings) (W : FileTree) (path : Bytes) :
    Bytes :=
  match (Job.ofPath path).run o W with
  | .ok c => rendering a s c.program
  | .error _ => []

omit [PatternCheck] [ScriptReader] in
theorem finish_files {c : Compiled} (h : path ≠ []) :
    (finish a s path (.ok c) r).files = r.files.store path (rendering a s c.program) := by
  change (if path = [] then _ else _ : Report).files = _
  rw [if_neg h]
  have hFiles : (Report.complain (remarks a c) r).files = r.files := rfl
  unfold store
  cases hWrite : r.files.write path (rendering a s c.program) with
  | ok files => simp only [hFiles, hWrite]
  | error reason =>
    simp only [hFiles, hWrite]
    rfl

theorem map_path_results (workers : Int) :
    (Batch.run o W workers false (a.inputs.map Job.ofPath)).results.map BatchResult.path =
      a.inputs := by
  have hJobs : ∀ (jobs : List Job) (n : Nat),
      ((jobs.zipIdx n).map fun entry =>
        (⟨entry.2, entry.1.path, entry.1.run o W⟩ : BatchResult)).map BatchResult.path =
          jobs.map Job.path := by
    intro jobs n
    rw [List.map_map]
    conv_rhs => rw [← List.zipIdx_map_fst n jobs, List.map_map]
    rfl
  refine (hJobs (a.inputs.map Job.ofPath) 0).trans ?_
  rw [List.map_map]
  exact List.map_id _

theorem outcome_of_mem {workers : Int} {result : BatchResult}
    (h : result ∈ (Batch.run o W workers false (a.inputs.map Job.ofPath)).results) :
    result.path ∈ a.inputs ∧ result.outcome = (Job.ofPath result.path).run o W := by
  simp only [Batch.run, Bool.false_eq_true, if_false, List.mem_map, Prod.exists] at h
  obtain ⟨job, index, hJob, rfl⟩ := h
  obtain ⟨path, hPath, rfl⟩ := List.mem_map.1 (List.fst_mem_of_mem_zipIdx hJob)
  exact ⟨hPath, rfl⟩

/-- A batch writes the texts of its inputs in their order. -/
theorem runBatch_files (hOutput : a.output ≠ []) (hFolder : r.files.makeFolder a.output = .ok W)
    (h : AllCompile a o W) :
    (runBatch a o s r).files = storeAll (outputPath a) (textOf a o s W) W a.inputs := by
  have hMade : (if a.output = [] then .ok r.files else r.files.makeFolder a.output) =
      (.ok W : Except Bytes FileTree) := by
    rw [if_neg hOutput, hFolder]
  unfold runBatch
  simp only [hMade]
  conv_rhs =>
    rw [← map_path_results (o := o) (W := W) (if a.workers ≤ 0 then s.processors else a.workers),
      storeAll, List.foldl_map]
  have hStats (report : Report) (text : Bytes) :
      (if a.stats then report.complain text else report).files = report.files := by
    split <;> rfl
  rw [hStats]
  refine List.foldl_rel (r := fun (report : Report) (t : FileTree) => report.files = t) rfl ?_
  rintro result hResult report t rfl
  obtain ⟨hMem, hOutcome⟩ := outcome_of_mem hResult
  obtain ⟨c, hc⟩ := h _ hMem
  rw [if_neg hOutput, hOutcome, hc, textOf, hc]
  exact finish_files (outputPath_ne_nil (name_ne_nil hc))

end

/-- The text of an input is in a file that no other input of the call is written to. -/
structure Kept (a : Arguments) (t : FileTree) (path text : Bytes) (place : PathParts) : Prop where
  takes : t.Takes (outputPath a path) place
  content : t.content? place = some text
  alone : ∀ other ∈ a.inputs, other ≠ path → ¬t.Takes (outputPath a other) place

/-- No two inputs of the call have the same name up to the last dot. -/
def StemsDiffer (a : Arguments) : Prop :=
  ∀ path ∈ a.inputs, ∀ other ∈ a.inputs, Path.stem path = Path.stem other → path = other

theorem kept_of_stemsDiffer [PatternCheck] [ScriptReader]
    (hFiles : t = storeAll (outputPath a) (textOf a o s W) W a.inputs) (h : AllCompile a o W)
    (hStems : StemsDiffer a) (hPath : path ∈ a.inputs)
    (hTakes : W.Takes (outputPath a path) place) : Kept a t path (textOf a o s W path) place := by
  have hName {p : Bytes} (hp : p ∈ a.inputs) : Path.name p ≠ [] := by
    obtain ⟨c, hc⟩ := h p hp
    exact name_ne_nil hc
  have hAlone : ∀ other ∈ a.inputs, other ≠ path → ¬W.Takes (outputPath a other) place := by
    intro other hOther hNe hTakesOther
    apply hNe
    apply hStems other hOther path hPath
    exact stem_eq_of_takes (hName hOther) (hName hPath) hTakesOther hTakes
  constructor
  · rw [hFiles]
    exact FileTree.takes_storeAll.2 hTakes
  · rw [hFiles]
    exact FileTree.content_storeAll hPath hTakes hAlone
  · intro other hOther hNe
    rw [hFiles, FileTree.takes_storeAll]
    exact hAlone other hOther hNe

/-- After a batch of inputs that all compile, each of them has its text in a file of its own just if
no two of them have the same name up to the last dot, and each has a place to be written to. -/
theorem runBatch_kept [PatternCheck] [ScriptReader] (a : Arguments) (o : Options) (s : Surroundings)
    (r : Report) (W : FileTree) (hOutput : a.output ≠ [])
    (hFolder : r.files.makeFolder a.output = .ok W) (h : AllCompile a o W) :
    (∀ path ∈ a.inputs, ∃ c place, (Job.ofPath path).run o W = .ok c ∧
      Kept a (runBatch a o s r).files path (rendering a s c.program) place) ↔
      StemsDiffer a ∧ ∀ path ∈ a.inputs, ∃ place, W.Takes (outputPath a path) place := by
  have hFiles := runBatch_files (s := s) hOutput hFolder h
  have hTakes {p : Bytes} {place : PathParts} (hTakes :
      (runBatch a o s r).files.Takes p place) : W.Takes p place := by
    rw [hFiles, FileTree.takes_storeAll] at hTakes
    exact hTakes
  constructor
  · intro hKept
    constructor
    · intro path hPath other hOther hStem
      by_contra hNe
      obtain ⟨c, place, hc, hText⟩ := hKept path hPath
      obtain ⟨c', _, hc', _⟩ := hKept other hOther
      apply hText.alone other hOther (Ne.symm hNe)
      rw [← outputPath_congr (name_ne_nil hc) (name_ne_nil hc') hStem]
      exact hText.takes
    · intro path hPath
      obtain ⟨c, place, hc, hText⟩ := hKept path hPath
      exact ⟨place, hTakes hText.takes⟩
  · rintro ⟨hStems, hPlaces⟩ path hPath
    obtain ⟨c, hc⟩ := h path hPath
    obtain ⟨place, hPlace⟩ := hPlaces path hPath
    have hText := kept_of_stemsDiffer hFiles h hStems hPath hPlace
    rw [textOf, hc] at hText
    exact ⟨c, place, hc, hText⟩

/-- A call that writes programs as they are into the folder `out`. -/
def intoFolder (inputs : List Bytes) : Arguments :=
  { inputs, format := "js", output := "out", workers := 1 }

/-- The texts `a` and `b` at two paths. -/
def twoTexts (first second : Bytes) : Report :=
  { files := .ofFiles [(first, "a"), (second, "b")] }

/-- Nothing but files. -/
def bare (r : Report) : Surroundings :=
  { environment := [], input := [], files := r.files, processors := 1, tag := [], elapsed := []
    dump := fun _ => [] }

theorem allCompile_of_isOk [PatternCheck] [ScriptReader]
    (h : ∀ path ∈ a.inputs, ((Job.ofPath path).run o W).isOk = true) : AllCompile a o W := by
  intro path hPath
  have hOk := h path hPath
  cases hRun : (Job.ofPath path).run o W with
  | ok c => exact ⟨c, rfl⟩
  | error e => rw [hRun] at hOk; cases hOk

theorem runBatch_kept_two :
    let a := intoFolder ["a/x.js", "b/y.js"]
    let r := twoTexts "a/x.js" "b/y.js"
    ∃ W, r.files.makeFolder a.output = .ok W ∧ AllCompile a .default W ∧
      ∀ path ∈ a.inputs, ∃ c place, (Job.ofPath path).run .default W = .ok c ∧
        Kept a (runBatch a .default (bare r) r).files path
          (rendering a (bare r) c.program) place := by
  intro a r
  have hFolder : r.files.makeFolder a.output =
      .ok { r.files with folders := [[Bytes.ofString "out"]] } := by decide +kernel
  refine ⟨_, hFolder, ?_⟩
  have hAll : AllCompile a .default { r.files with folders := [[Bytes.ofString "out"]] } :=
    allCompile_of_isOk (by decide +kernel)
  refine ⟨hAll, (runBatch_kept a .default (bare r) r _ (by decide) hFolder hAll).2 ⟨?_, ?_⟩⟩
  · unfold StemsDiffer
    decide +kernel
  · intro path hPath
    refine ⟨[Bytes.ofString "out", outputName path a.format], ?_, ?_⟩ <;> revert path <;>
      decide +kernel

/-- What is written of a program with the passes of the default settings. -/
theorem textOf_default [PatternCheck] [ScriptReader] {source : Source} {p : Program}
    (hSource : W.source path = .ok source) (hRead : source.read Options.default.frontend W = .ok p)
    (hFormat : a.format = "js") :
    textOf a .default s W path = (p.edit (p.editsOnce Options.default.literals)).print := by
  have hCompile := Options.compile_withPasses .default PassName.all W source
  have hRun : (Job.ofPath path).run .default W =
      .ok ((Session.start Options.default.literals PassName.all).compiled source p) := by
    simp only [Job.run, Job.ofPath, hSource]
    change ((Options.default.withPasses PassName.all).compile W source).mapError _ = _
    rw [hCompile, hRead]
    rfl
  obtain ⟨hApart, -⟩ := Session.walkProgram_apart (.inl rfl) Options.default.literals p
  obtain ⟨hOnce, -⟩ := Session.walkProgram_once Options.default.literals p
  rw [textOf, hRun]
  change rendering a s _ = _
  rw [rendering, if_pos hFormat]
  exact congrArg Program.print (hApart.trans hOnce)

theorem textOf_eq [PatternCheck] [ScriptReader] {text : Bytes} (hFormat : a.format = "js")
    (h : ((W.source path).toOption.any fun source =>
      (source.read Options.default.frontend W).toOption.any fun p =>
        decide ((p.edit (p.editsOnce Options.default.literals)).print = text)) = true) :
    textOf a .default s W path = text := by
  obtain ⟨source, hSource, hRest⟩ := exists_of_any h
  obtain ⟨p, hRead, hText⟩ := exists_of_any hRest
  rw [textOf_default hSource hRead hFormat]
  exact of_decide_eq_true hText

/-- Of two inputs with one name in different folders, the text of the first is in no file, and the
call does not fail. -/
theorem runBatch_kept_lost :
    let a := intoFolder ["a/x.js", "b/x.js"]
    let r := twoTexts "a/x.js" "b/x.js"
    ∃ W, r.files.makeFolder a.output = .ok W ∧ AllCompile a .default W ∧ a.inputs.Nodup ∧
      textOf a .default (bare r) W "a/x.js" = Bytes.ofString "a;\n" ∧
      (runBatch a .default (bare r) r).code = 0 ∧
      ∀ place, (runBatch a .default (bare r) r).files.content? place ≠ some "a;\n" := by
  intro a r
  have hFolder : r.files.makeFolder a.output =
      .ok { r.files with folders := [[Bytes.ofString "out"]] } := by decide +kernel
  have hAll : AllCompile a .default { r.files with folders := [[Bytes.ofString "out"]] } :=
    allCompile_of_isOk (by decide +kernel)
  have hFirst : textOf a .default (bare r) { r.files with folders := [[Bytes.ofString "out"]] }
      "a/x.js" = Bytes.ofString "a;\n" := textOf_eq (by decide) (by decide +kernel)
  have hSecond : textOf a .default (bare r) { r.files with folders := [[Bytes.ofString "out"]] }
      "b/x.js" = Bytes.ofString "b;\n" := textOf_eq (by decide) (by decide +kernel)
  refine ⟨_, hFolder, hAll, by decide, hFirst, by decide +kernel, ?_⟩
  rw [runBatch_files (by decide) hFolder hAll]
  change ∀ place, (FileTree.store (FileTree.store _ _ (textOf ..)) _ (textOf ..)).content? place ≠ _
  rw [hFirst, hSecond]
  have hNone : ∀ f ∈ (FileTree.store (FileTree.store
      { r.files with folders := [[Bytes.ofString "out"]] } (outputPath a "a/x.js") "a;\n")
        (outputPath a "b/x.js") "b;\n").files, f.2 ≠ Bytes.ofString "a;\n" := by
    decide +kernel
  intro place hContent
  obtain ⟨f, hFind, hText⟩ := Option.map_eq_some_iff.1 hContent
  exact hNone f (List.mem_of_find?_eq_some hFind) hText

end Cli

end ScriptOptimizer
