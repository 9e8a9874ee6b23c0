import Mathlib.Data.List.TakeWhile
import Stylesheet.Proofs.Commands

/-!
# The default output of a build

By default the CSS of a source goes beside it, under a path that differs from
that of the source in its last element only.  So a build can harm its source
only if both names are the same, which is so if the source has the extension of
CSS already.
-/

namespace Stylesheet

/-! ## Paths that differ in their extension -/

namespace Text

variable {separator : Char}

theorem splitChars_of_not_mem {cs : List Char} (h : separator ∉ cs) :
    splitChars separator cs = [cs] := by
  induction cs with
  | nil => rfl
  | cons c cs ih =>
      rw [List.mem_cons, not_or] at h
      rw [splitChars, if_neg (Ne.symm h.1), ih h.2]

/-- What stands behind the last separator is the end of the last piece, whatever
it is. -/
theorem exists_splitChars_append (separator : Char) (stem : List Char) :
    ∃ front last, ∀ rest, separator ∉ rest →
      splitChars separator (stem ++ rest) = front ++ [last ++ rest] := by
  induction stem with
  | nil => exact ⟨[], [], fun rest h => splitChars_of_not_mem h⟩
  | cons c stem ih =>
      obtain ⟨front, last, hsplit⟩ := ih
      by_cases hc : c = separator
      · refine ⟨[] :: front, last, fun rest h => ?_⟩
        rw [List.cons_append, splitChars, if_pos hc, hsplit rest h,
          List.cons_append]
      · cases front with
        | nil =>
            refine ⟨[], c :: last, fun rest h => ?_⟩
            rw [List.cons_append, splitChars, if_neg hc, hsplit rest h]
            rfl
        | cons piece pieces =>
            refine ⟨(c :: piece) :: pieces, last, fun rest h => ?_⟩
            rw [List.cons_append, splitChars, if_neg hc, hsplit rest h]
            rfl

end Text

namespace Path

/-- A path without its extension. -/
def stem (path : List Char) : List Char :=
  path.take (path.length - (extension path).length)

/-- The extension is empty or begins at the last dot of the last element. -/
theorem extension_eq_nil_or (path : List Char) :
    extension path = [] ∨ ∃ tail rest, extension path = '.' :: tail.reverse ∧
      path.reverse.takeWhile (· ≠ '/') = tail ++ '.' :: rest := by
  dsimp only [extension]
  generalize path.reverse.takeWhile (· ≠ '/') = name
  by_cases hdot : '.' ∈ name
  · right
    obtain ⟨tail, rest, rfl, hnot⟩ := List.eq_append_cons_of_mem hdot
    have htail : (tail ++ '.' :: rest).takeWhile (· ≠ '.') = tail := by
      rw [List.takeWhile_append_of_pos
        (by simpa using fun c hc => ne_of_mem_of_not_mem hc hnot)]
      simp
    refine ⟨tail, rest, ?_, rfl⟩
    rw [htail, if_neg (by simp)]
  · left
    have hname : name.takeWhile (· ≠ '.') = name :=
      List.takeWhile_eq_self_iff.mpr
        (by simpa using fun c hc => ne_of_mem_of_not_mem hc hdot)
    rw [hname, if_pos rfl]

theorem extension_suffix (path : List Char) : extension path <:+ path := by
  obtain hnil | ⟨tail, rest, hextension, hname⟩ := extension_eq_nil_or path
  · rw [hnil]
    exact List.nil_suffix
  · have hfront : tail ++ ['.'] <+: path.reverse := by
      have hfirst := List.takeWhile_prefix (· ≠ '/') (l := path.reverse)
      rw [hname] at hfirst
      exact List.IsPrefix.trans ⟨rest, by simp⟩ hfirst
    rw [← List.reverse_prefix, hextension]
    simpa using hfront

theorem slash_not_mem_extension (path : List Char) : '/' ∉ extension path := by
  obtain hnil | ⟨tail, rest, hextension, hname⟩ := extension_eq_nil_or path
  · simp [hnil]
  · intro hmem
    have htail : '/' ∈ tail := by simpa [hextension] using hmem
    have hin : '/' ∈ path.reverse.takeWhile (· ≠ '/') := by
      rw [hname]
      exact List.mem_append_left _ htail
    simpa using List.mem_takeWhile_imp hin

theorem stem_append_extension (path : List Char) :
    stem path ++ extension path = path :=
  List.suffix_iff_eq_append.mp (extension_suffix path)

theorem toList_ofList_append (cs : List Char) (s : String) :
    (String.ofList cs ++ s).toList = cs ++ s.toList := by
  rw [String.toList_append, String.toList_ofList]

theorem toList_cssPath (path : String) :
    (cssPath path).toList = stem path.toList ++ ".css".toList :=
  toList_ofList_append _ _

theorem cssPath_eq_self {path : String}
    (h : extension path.toList = ".css".toList) :
    cssPath path = path := by
  rw [← String.toList_inj, toList_cssPath, ← h]
  exact stem_append_extension path.toList

theorem cssPath_ne_dash (path : String) : cssPath path ≠ "-" := by
  intro h
  have hlength := congrArg (·.toList.length) h
  simp only [toList_cssPath, List.length_append] at hlength
  have hdash : "-".toList.length = 1 := rfl
  have hcss : ".css".toList.length = 4 := rfl
  omega

theorem isRooted_cssPath (path : String) :
    isRooted (cssPath path) = isRooted path := by
  have hpath := stem_append_extension path.toList
  unfold isRooted
  rw [toList_cssPath]
  cases hstem : stem path.toList with
  | nil =>
      rw [hstem, List.nil_append] at hpath
      have hhead : path.toList.head? ≠ some '/' := by
        intro hhead
        apply slash_not_mem_extension path.toList
        rw [hpath]
        exact List.mem_of_mem_head? hhead
      rw [decide_eq_false hhead]
      rfl
  | cons c cs =>
      rw [hstem] at hpath
      rw [← hpath]
      rfl

/-- A source and its CSS differ in the last element only, and in that by the
extension. -/
theorem exists_parts_cssPath (path : String) :
    ∃ front last, parts path = front
      ++ [String.ofList (last ++ extension path.toList)] ∧
      parts (cssPath path) = front
        ++ [String.ofList (last ++ ".css".toList)] := by
  obtain ⟨front, last, hsplit⟩ :=
    Text.exists_splitChars_append '/' (stem path.toList)
  refine ⟨front.map String.ofList, last, ?_, ?_⟩
  · have hpath := hsplit _ (slash_not_mem_extension path.toList)
    rw [stem_append_extension] at hpath
    rw [parts, hpath, List.map_append, List.map_singleton]
  · rw [parts, toList_cssPath, hsplit _ (by decide), List.map_append,
      List.map_singleton]

end Path

/-! ## Builds beside the source -/

namespace Command

open Stylesheet.Directory

section Builds

variable {d : Directory} {path : String} {source : List Char}

/-- A build beside its source changes it only if it is called as its CSS is. -/
theorem read_of_write_cssPath
    {between after : Directory} {css : List Char}
    (hkeeps : d.KeepsFiles between)
    (hwrite : between.write (Path.cssPath path) css = .ok after)
    (hextension : Path.extension path.toList ≠ ".css".toList)
    (hread : d.read path = .ok source) :
    after.read path = .ok source := by
  obtain ⟨front, name, folder, hwritable, rfl⟩ := write_eq_ok hwrite
  obtain ⟨front', last, hpath, hout⟩ := Path.exists_parts_cssPath path
  obtain ⟨hfront, hname⟩ :=
    List.append_inj' (hwritable.parts_eq.symm.trans hout) rfl
  obtain rfl : name = String.ofList (last ++ ".css".toList) :=
    List.singleton_inj.mp hname
  subst hfront
  apply hwritable.read_put_of_ne hpath (Path.isRooted_cssPath path).symm _
    (hkeeps.read_eq hread)
  intro heq
  exact hextension (List.append_cancel_left (String.ofList_injective heq))

theorem Builds.exists_write
    {out : String} {after : Directory} (h : Builds d path out after)
    (hout : out ≠ "-") (hread : d.read path = .ok source) :
    ∃ between, d.KeepsFiles between ∧
      between.write out (bytesOf (compile source).css) = .ok after := by
  obtain ⟨source', hsource, -, hwritten⟩ := h
  obtain rfl : source = source' := Except.ok.inj (hread.symm.trans hsource)
  rwa [if_neg hout] at hwritten

theorem run_buildScript_of_error
    {out : String} {e : FileError} (h : d.read path = .error e) :
    (buildScript path out).run d =
      (failWith ("Error: failed to read " ++ path ++ ": " ++ e.message)).run
        d := by
  rw [buildScript, Script.run, h]

theorem Outcome.Spares.read_eq_iff
    {o : Outcome} (h : o.Spares d (Builds d path (Path.cssPath path)))
    (hread : d.read path = .ok source) :
    o.directory.read path = .ok source ↔
      o.status ≠ 0 ∨ Path.extension path.toList ≠ ".css".toList ∨
        bytesOf (compile source).css = source := by
  by_cases hstatus : o.status = 0
  · obtain ⟨between, hkeeps, hwrite⟩ :=
      (h.of_success hstatus).exists_write (Path.cssPath_ne_dash path) hread
    by_cases hextension : Path.extension path.toList = ".css".toList
    · rw [Path.cssPath_eq_self hextension] at hwrite
      have hcss := read_of_write hwrite
      constructor
      · intro hkept
        exact .inr (.inr (Except.ok.inj (hcss.symm.trans hkept)))
      · rintro (hne | hne | hsame)
        · exact absurd hstatus hne
        · exact absurd hextension hne
        · exact hcss.trans (congrArg _ hsame)
    · have hkept := read_of_write_cssPath hkeeps hwrite hextension hread
      exact iff_of_true hkept (.inr (.inl hextension))
  · have hkept := (h.of_failure hstatus).read_eq hread
    exact iff_of_true hkept (.inl hstatus)

theorem run_build
    {words more : List String} {settings : Settings} (input : List Char)
    (hflags : readFlags build.flags [] words = .ok settings)
    (hpath : settings.operands = path :: more) :
    run ("build" :: words) input d = (build.onFile settings path).run d := by
  have hscript : build.script words = build.onFile settings path := by
    rw [script, hflags]
    dsimp only
    rw [hpath]
  exact congrArg (fun script : Script => script.run d) hscript

end Builds

/-- The flags end at a word without a dash in front. -/
theorem readFlags_operand
    (flags : List Flag) (values : List (String × String)) {word : String}
    (h : word.toList.head? ≠ some '-') (rest : List String) :
    readFlags flags values (word :: rest) = .ok ⟨values, word :: rest⟩ := by
  have hword : Word.of word = .operand := by
    unfold Word.of
    split
    · next heq => simp [heq] at h
    · next heq => simp [heq] at h
    · next heq => simp [heq] at h
    · rfl
  rw [readFlags, hword]

/-- A build to the default output leaves its source as it was exactly if the
build fails, or the source is not called as its CSS is, or it is its own CSS. -/
theorem build_keeps_source_iff
    {words more : List String} {settings : Settings} {path : String}
    (hflags : readFlags build.flags [] words = .ok settings)
    (hout : settings.text "o" = "") (hpath : settings.operands = path :: more)
    (input : List Char) (d : Directory) :
    (run ("build" :: words) input d).directory.read path = d.read path ↔
      (run ("build" :: words) input d).status ≠ 0 ∨
        Path.extension path.toList ≠ ".css".toList ∨
        ∃ source, d.read path = .ok source ∧
          bytesOf (compile source).css = source := by
  rw [run_build input hflags hpath, onFile, if_pos hout]
  cases hread : d.read path with
  | error e =>
      rw [run_buildScript_of_error hread]
      exact iff_of_true hread (.inl Nat.one_ne_zero)
  | ok source =>
      rw [(spares_buildScript path _ d).read_eq_iff hread]
      simp

/-- Dots in folders, in front and at the end of a name do not matter. -/
theorem build_keeps_source_dots :
    let path := "../v1.css/..a.css."
    let d :=
      (Directory.bare.addFolder ⟨.up 1, ["v1.css"]⟩).put
        ⟨.up 1, ["v1.css", "..a.css."]⟩
      (bytesOf "p \x7b width: 1px; \x7d")
    readFlags build.flags [] [path] = .ok ⟨[], [path]⟩ ∧
      (run ["build", path] [] d).status = 0 ∧
      (run ["build", path] [] d).directory.read path = d.read path := by
  intro path d
  have hflags : readFlags build.flags [] [path] = .ok ⟨[], [path]⟩ :=
    readFlags_operand _ _ (by decide +kernel) []
  have hextension : Path.extension path.toList ≠ ".css".toList := by
    decide +kernel
  refine ⟨hflags, by decide +kernel, ?_⟩
  exact (build_keeps_source_iff hflags rfl rfl [] d).mpr
    (.inr (.inl hextension))

/-- A source that is called as its CSS is gets lost. -/
theorem build_overwrites_css :
    let d :=
      Directory.bare.put ⟨.here, ["a.css"]⟩ (bytesOf "p\x7bwidth:1px;\x7d")
    let o := run ["build", "a.css"] [] d
    o.status = 0 ∧ d.read "a.css" = .ok (bytesOf "p\x7bwidth:1px;\x7d") ∧
      o.directory.read "a.css" =
        .ok (bytesOf "p \x7b\n  width: 1px;\n\x7d\n") := by
  decide +kernel

end Command
end Stylesheet
