import PolicyAcl.Config.File
import PolicyAcl.Proofs.LetterCase
import PolicyAcl.Proofs.Pieces

/-! Configuration files are told apart by the last component of their path. What stands behind
its last dot decides how the text of the file is loaded, and without a known extension the file
is not looked at. -/
namespace PolicyAcl

/-- What may follow the last component of a path: slashes, and slashes with a dot. -/
inductive Trailing : List Char → Prop
  | nothing : Trailing []
  | slash {text : List Char} : Trailing text → Trailing (text ++ ['/'])
  | dot {text : List Char} : Trailing text → Trailing (text ++ ['/', '.'])

/-- A path ends in a component. Nothing, or a single dot, is one only if there is nothing in
front of it. -/
def EndsIn (path : String) (component : List Char) : Prop :=
  ∃ front trail, path.toList = front ++ component ++ trail ∧ Trailing trail ∧
    '/' ∉ component ∧ (front = [] ∨ ∃ earlier, front = earlier ++ ['/']) ∧
    (component = [] ∨ component = ['.'] → front = [])

theorem Trailing.dropTrailing {trail : List Char} (trailing : Trailing trail) (text : List Char) :
    dropTrailing (trail.reverse ++ text) = dropTrailing text := by
  induction trailing with
  | nothing => rfl
  | slash _ ih => simpa [PolicyAcl.dropTrailing] using ih
  | dot _ ih => simpa [PolicyAcl.dropTrailing] using ih

/-- What is dropped is what may follow a component, and what is left does not end in it. -/
theorem dropTrailing_split (text : List Char) :
    (∃ trail, Trailing trail ∧ text = trail.reverse ++ dropTrailing text) ∧
    (∀ rest, dropTrailing text ≠ '/' :: rest) ∧ ∀ rest, dropTrailing text ≠ '.' :: '/' :: rest := by
  induction text using dropTrailing.induct with
  | case1 text ih =>
      obtain ⟨⟨trail, trailing, split⟩, ends⟩ := ih
      refine ⟨⟨trail ++ ['/'], trailing.slash, ?_⟩, ends⟩
      rw [dropTrailing, List.reverse_append, List.append_assoc, ← split]
      rfl
  | case2 text ih =>
      obtain ⟨⟨trail, trailing, split⟩, ends⟩ := ih
      refine ⟨⟨trail ++ ['/', '.'], trailing.dot, ?_⟩, ends⟩
      rw [dropTrailing, List.reverse_append, List.append_assoc, ← split]
      rfl
  | case3 text slash dot =>
      have kept : dropTrailing text = text := dropTrailing.eq_3 text slash dot
      rw [kept]
      exact ⟨⟨[], .nothing, rfl⟩, slash, dot⟩

theorem dropTrailing_component {component front : List Char} (single : '/' ∉ component)
    (alone : component = [] ∨ component = ['.'] → front = []) :
    dropTrailing (component.reverse ++ front.reverse) = component.reverse ++ front.reverse := by
  rcases reversed : component.reverse with - | ⟨letter, letters⟩
  · obtain rfl : front = [] := alone (.inl (List.reverse_eq_nil_iff.mp reversed))
    rfl
  · rw [← List.mem_reverse, reversed, List.mem_cons, not_or] at single
    refine dropTrailing.eq_3 _ (fun rest same => ?_) (fun rest same => ?_)
    · exact single.1 (List.cons.inj same).1.symm
    · obtain ⟨dot, later⟩ := List.cons.inj same
      cases letters with
      | nil =>
          have lone : component = ['.'] := by
            rw [← List.reverse_reverse component, reversed, dot]
            rfl
          rw [alone (.inr lone)] at later
          cases later
      | cons next letters =>
          obtain ⟨slash, -⟩ := List.cons.inj later
          exact single.2 (slash ▸ List.mem_cons_self)

/-- A text is cut at the first of these letters, if it has one. -/
theorem takeWhile_ne_cases (letter : Char) (text : List Char) :
    letter ∉ text.takeWhile (· ≠ letter) ∧
      (text = text.takeWhile (· ≠ letter) ∨
        ∃ rest, text = text.takeWhile (· ≠ letter) ++ letter :: rest) := by
  induction text with
  | nil => simp
  | cons first text ih =>
      obtain ⟨absent, split⟩ := ih
      by_cases same : first = letter
      · simp [same]
      · have kept : (first :: text).takeWhile (· ≠ letter) =
            first :: text.takeWhile (· ≠ letter) := by simp [same]
        rw [kept]
        refine ⟨List.not_mem_cons_of_ne_of_not_mem (Ne.symm same) absent, ?_⟩
        rcases split with whole | ⟨rest, split⟩
        · exact .inl (congrArg (first :: ·) whole)
        · exact .inr ⟨rest, congrArg (first :: ·) split⟩

theorem takeWhile_of_ends {front : List Char}
    (ends : front = [] ∨ ∃ earlier, front = earlier ++ ['/']) :
    front.reverse.takeWhile (· ≠ '/') = [] := by
  rcases ends with rfl | ⟨earlier, rfl⟩ <;> simp

/-- A path ends in one component only. -/
theorem endsIn_iff {path : String} {component : List Char} :
    EndsIn path component ↔ component = lastComponent path := by
  constructor
  · rintro ⟨front, trail, whole, trailing, single, ends, alone⟩
    have clear : '/' ∉ component.reverse := by rwa [List.mem_reverse]
    rw [lastComponent, whole, List.reverse_append, List.reverse_append, trailing.dropTrailing,
      dropTrailing_component single alone, takeWhile_ne_append clear,
      takeWhile_of_ends ends, List.append_nil, List.reverse_reverse]
  · rintro rfl
    obtain ⟨⟨trail, trailing, split⟩, unslashed, undotted⟩ := dropTrailing_split path.toList.reverse
    rw [lastComponent]
    generalize dropTrailing path.toList.reverse = left at split unslashed undotted ⊢
    have whole : path.toList = left.reverse ++ trail := by
      rw [← List.reverse_reverse path.toList, split, List.reverse_append, List.reverse_reverse]
    obtain ⟨absent, alone | ⟨rest, parts⟩⟩ := takeWhile_ne_cases '/' left
    · refine ⟨[], trail, ?_, trailing, ?_, .inl rfl, fun _ => rfl⟩
      · rw [← alone]
        exact whole
      · rwa [List.mem_reverse]
    · refine ⟨rest.reverse ++ ['/'], trail, ?_, trailing, ?_, .inr ⟨_, rfl⟩, fun short => ?_⟩
      · rw [whole]
        conv_lhs => rw [parts]
        simp
      · rwa [List.mem_reverse]
      · -- The slash in front would have been dropped, and so would a dot behind it.
        rw [List.reverse_eq_iff, List.reverse_eq_iff] at short
        rcases short with none | dot
        · rw [none] at parts
          exact absurd parts (unslashed rest)
        · rw [dot] at parts
          exact absurd parts (undotted rest)

/-- An extension is what stands behind the last dot of a component. There is something in front
of that dot, and two dots alone have no extension. -/
def HasExtension (component extension : List Char) : Prop :=
  component ≠ ['.', '.'] ∧ '.' ∉ extension ∧
    ∃ stem, stem ≠ [] ∧ component = stem ++ '.' :: extension

section
variable {path : String} {component extension : List Char}

theorem pathExtension?_of_has (ends : EndsIn path component)
    (has : HasExtension component extension) : pathExtension? path = some (.ofList extension) := by
  obtain ⟨proper, undotted, stem, inhabited, rfl⟩ := has
  have clear : '.' ∉ extension.reverse := by rwa [List.mem_reverse]
  have behind : ((stem ++ '.' :: extension).reverse.takeWhile (· ≠ '.')).reverse = extension := by
    rw [List.reverse_append, List.reverse_cons, List.append_assoc, takeWhile_ne_append clear]
    simp
  have long : ¬(stem ++ '.' :: extension).length ≤ extension.length + 1 := by
    have some := List.length_pos_of_ne_nil inhabited
    simp only [List.length_append, List.length_cons]
    omega
  rw [pathExtension?, ← endsIn_iff.mp ends]
  simp only [behind]
  rw [if_neg (not_or.mpr ⟨proper, long⟩)]

theorem pathExtension?_of_bare (ends : EndsIn path component)
    (bare : '.' ∉ component.tail ∨ component = ['.', '.']) : pathExtension? path = none := by
  rw [pathExtension?, ← endsIn_iff.mp ends]
  refine if_pos ?_
  rcases bare with undotted | dots
  · -- Nothing but the first letter can be in front of the extension.
    refine .inr ?_
    cases component with
    | nil => simp
    | cons first rest =>
        have clear : '.' ∉ rest.reverse := by rwa [List.mem_reverse]
        rw [List.reverse_cons, takeWhile_ne_append clear]
        simp
  · exact .inl dots

/-- There is no extension without a dot, behind a dot that comes first, or in two dots. -/
theorem no_extension_iff :
    (¬∃ extension, HasExtension component extension) ↔
      '.' ∉ component.tail ∨ component = ['.', '.'] := by
  rw [← not_iff_not, not_not, not_or, not_not]
  constructor
  · rintro ⟨extension, proper, -, stem, inhabited, rfl⟩
    obtain ⟨first, stem, rfl⟩ := List.exists_cons_of_ne_nil inhabited
    exact ⟨by simp, proper⟩
  · rintro ⟨dotted, proper⟩
    cases component with
    | nil => cases dotted
    | cons first rest =>
        rw [List.tail_cons, ← List.mem_reverse] at dotted
        obtain ⟨absent, whole | ⟨before, split⟩⟩ := takeWhile_ne_cases '.' rest.reverse
        · exact absurd (whole ▸ dotted) absent
        · refine ⟨(rest.reverse.takeWhile (· ≠ '.')).reverse, proper, by rwa [List.mem_reverse],
            first :: before.reverse, by simp, ?_⟩
          have split' := congrArg List.reverse split
          simpa using split'

end

namespace Config

/-- A file is loaded from the text that it holds, or it cannot be read as a text. -/
structure LoadsBy (load : String → Except ConfigError Config) (path : String) : Prop where
  text : ∀ text : String, ofFile path (some text.toUTF8) = load text
  unreadable : ∀ contents, (∀ text : String, contents ≠ some text.toUTF8) →
    ofFile path contents = .error (.unreadable path)

/-- A file is refused with an error, whatever it holds and whether there is one. -/
structure Refuses (path : String) (error : ConfigError) (message : String) : Prop where
  refused : ∀ contents, ofFile path contents = .error error
  shown : error.message = message

theorem readFile_text (path text : String) : readFile path (some text.toUTF8) = .ok text := by
  have valid : text.toUTF8.IsValidUTF8 := text.isValidUTF8
  have read : String.fromUTF8? text.toUTF8 = some text := dif_pos valid
  rw [readFile, Option.bind_some, read]

theorem readFile_unreadable {path : String} {contents : Option ByteArray}
    (strange : ∀ text : String, contents ≠ some text.toUTF8) :
    readFile path contents = .error (.unreadable path) := by
  rw [readFile]
  split
  next text read =>
    obtain ⟨bytes, rfl, decoded⟩ := Option.bind_eq_some_iff.mp read
    unfold String.fromUTF8? at decoded
    split at decoded
    next valid => exact absurd rfl (strange (String.fromUTF8 bytes valid))
    next => cases decoded
  next => rfl

theorem loadsBy_of_ofFile {load : String → Except ConfigError Config} {path : String}
    (loads : ∀ contents, ofFile path contents = (readFile path contents).bind load) :
    LoadsBy load path where
  text text := by
    rw [loads, readFile_text]
    rfl
  unreadable contents strange := by
    rw [loads, readFile_unreadable strange]
    rfl

section
variable {path : String} {extension : List Char}

theorem ofFile_of_yaml (found : pathExtension? path = some (.ofList extension))
    (word : SpellsWord extension "yaml".toList ∨ SpellsWord extension "yml".toList) :
    LoadsBy ofYaml path := by
  rw [spellsWord_iff (by decide), spellsWord_iff (by decide)] at word
  refine loadsBy_of_ofFile fun contents => ?_
  rw [ofFile, found]
  simp only [String.toList_ofList]
  rw [if_pos word]

theorem ofFile_of_json (found : pathExtension? path = some (.ofList extension))
    (word : SpellsWord extension "json".toList) : LoadsBy ofJson path := by
  rw [spellsWord_iff (by decide)] at word
  refine loadsBy_of_ofFile fun contents => ?_
  rw [ofFile, found]
  simp only [String.toList_ofList, word]
  rw [if_neg (by decide), if_pos trivial]

theorem ofFile_of_other (found : pathExtension? path = some (.ofList extension))
    (other : ∀ word ∈ ["yaml", "yml", "json"], ¬SpellsWord extension word.toList) :
    Refuses path (.unknownExtension (.ofList extension))
      ("Unsupported configuration file: unsupported file extension " ++ .ofList extension) where
  refused contents := by
    obtain ⟨yaml, yml, json⟩ : extension.map Char.toLower ≠ "yaml".toList ∧
        extension.map Char.toLower ≠ "yml".toList ∧ extension.map Char.toLower ≠ "json".toList := by
      rw [ne_eq, ne_eq, ne_eq, ← spellsWord_iff (by decide), ← spellsWord_iff (by decide),
        ← spellsWord_iff (by decide)]
      simpa using other
    rw [ofFile, found]
    simp only [String.toList_ofList]
    rw [if_neg (not_or.mpr ⟨yaml, yml⟩), if_neg json]
  shown := rfl

theorem ofFile_of_none (absent : pathExtension? path = none) :
    Refuses path (.missingExtension path)
      ("Unsupported configuration file: missing file extension (" ++ path ++ ")") where
  refused contents := by rw [ofFile, absent]
  shown := rfl

end

end Config

/-- The extension of the last component of a path decides about a configuration file. It is read
and loaded as YAML or as JSON, whatever the case of the letters of the extension, and not looked
at if the extension is another one or if there is none. -/
theorem file_is_judged_by_extension (path : String) :
    ∃ component, EndsIn path component ∧ (∀ other, EndsIn path other → other = component) ∧
      (∀ extension, HasExtension component extension →
        ((SpellsWord extension "yaml".toList ∨ SpellsWord extension "yml".toList) →
          Config.LoadsBy Config.ofYaml path) ∧
        (SpellsWord extension "json".toList → Config.LoadsBy Config.ofJson path) ∧
        ((∀ word ∈ ["yaml", "yml", "json"], ¬SpellsWord extension word.toList) →
          Config.Refuses path (.unknownExtension (.ofList extension))
            ("Unsupported configuration file: unsupported file extension " ++
              .ofList extension))) ∧
      ((¬∃ extension, HasExtension component extension) ↔
        '.' ∉ component.tail ∨ component = ['.', '.']) ∧
      ((¬∃ extension, HasExtension component extension) →
        Config.Refuses path (.missingExtension path)
          ("Unsupported configuration file: missing file extension (" ++ path ++ ")")) := by
  have ends : EndsIn path (lastComponent path) := endsIn_iff.mpr rfl
  refine ⟨lastComponent path, ends, fun other => endsIn_iff.mp, fun extension has => ?_,
    no_extension_iff, fun none => ?_⟩
  · have found := pathExtension?_of_has ends has
    exact ⟨Config.ofFile_of_yaml found, Config.ofFile_of_json found, Config.ofFile_of_other found⟩
  · exact Config.ofFile_of_none (pathExtension?_of_bare ends (no_extension_iff.mp none))

/-- A file with several dots in its name, in a folder with one; a file with a dot in front only;
and a file with a dot behind only. -/
theorem file_is_judged_by_extension_dotted :
    EndsIn "conf.d/a.b.YmL/./" "a.b.YmL".toList ∧ HasExtension "a.b.YmL".toList "YmL".toList ∧
    SpellsWord "YmL".toList "yml".toList ∧ Config.LoadsBy Config.ofYaml "conf.d/a.b.YmL/./" ∧
    (¬∃ extension, HasExtension ".json".toList extension) ∧
    Config.Refuses "conf.d/.json" (.missingExtension "conf.d/.json")
      ("Unsupported configuration file: missing file extension (" ++ "conf.d/.json" ++ ")") ∧
    HasExtension "json.".toList [] ∧ (∀ word ∈ ["yaml", "yml", "json"], ¬SpellsWord [] word.toList) ∧
    Config.Refuses "json." (.unknownExtension "")
      ("Unsupported configuration file: unsupported file extension " ++ "") := by
  have dotted : EndsIn "conf.d/a.b.YmL/./" "a.b.YmL".toList := endsIn_iff.mpr (by decide +kernel)
  have hidden : EndsIn "conf.d/.json" ".json".toList := endsIn_iff.mpr (by decide +kernel)
  have ended : EndsIn "json." "json.".toList := endsIn_iff.mpr (by decide +kernel)
  have yaml : HasExtension "a.b.YmL".toList "YmL".toList :=
    ⟨by decide, by decide, "a.b".toList, by decide, by decide⟩
  have empty : HasExtension "json.".toList [] :=
    ⟨by decide, by decide, "json".toList, by decide, by decide⟩
  have none : ¬∃ extension, HasExtension ".json".toList extension :=
    no_extension_iff.mpr (.inl (by decide))
  have unknown : ∀ word ∈ ["yaml", "yml", "json"], ¬SpellsWord [] word.toList := by decide
  refine ⟨dotted, yaml, by decide, ?_, none, ?_, empty, unknown, ?_⟩
  · obtain ⟨component, -, only, judged, -⟩ := file_is_judged_by_extension "conf.d/a.b.YmL/./"
    obtain rfl := only _ dotted
    exact (judged _ yaml).1 (.inr (by decide))
  · obtain ⟨component, -, only, -, -, refused⟩ := file_is_judged_by_extension "conf.d/.json"
    obtain rfl := only _ hidden
    exact refused none
  · obtain ⟨component, -, only, judged, -⟩ := file_is_judged_by_extension "json."
    obtain rfl := only _ ended
    exact (judged _ empty).2.2 unknown

end PolicyAcl
