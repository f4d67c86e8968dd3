import PolicyAcl.Config.OfYaml
import PolicyAcl.Proofs.JsonCompact
import PolicyAcl.Proofs.JsonConfig
import PolicyAcl.Proofs.YamlFlow

/-! Compact JSON documents, loaded as YAML. Apart from arrays in the place of a record, which
only JSON has, they are the same configurations, or refused for the same reason. -/
namespace PolicyAcl.Yaml

open Json (Value Spells SpellsItem SpellsItems SpellsField SpellsFields SpellsString Compact)

/-! The characters of a compact text. -/

/-- No carriage return, and no character that is refused unless the text is strange anyway. -/
def Fair (strange : Prop) (text : List Char) : Prop :=
  ∀ c ∈ text, c ≠ '\r' ∧ (isAllowed c = true ∨ strange)

variable {strange strange' : Prop} {text more : List Char}

theorem Fair.append (first : Fair strange text) (second : Fair strange more) :
    Fair strange (text ++ more) := List.forall_mem_append.mpr ⟨first, second⟩

theorem Fair.imp (fair : Fair strange text) (worse : strange → strange') : Fair strange' text :=
  fun c member => (fair c member).imp_right (Or.imp_right worse)

theorem fair_of_visible (visible : text.all fun c => c ≠ '\r' ∧ isAllowed c = true) : Fair strange text :=
  fun c member => (of_decide_eq_true (List.all_eq_true.mp visible c member)).imp_right .inl

theorem Fair.cons {c : Char} (visible : c ≠ '\r' ∧ isAllowed c = true) (fair : Fair strange text) :
    Fair strange (c :: text) :=
  List.forall_mem_cons.mpr ⟨visible.imp_right .inl, fair⟩

theorem fair_nil : Fair strange [] := fun _ => nofun

theorem fair_unit {digits : List Char} {unit : Nat} (spells : Json.SpellsUnit unit digits) :
    Fair strange digits := by
  have digit {value : Nat} {c : Char} : Json.IsHexDigit value c → c ≠ '\r' ∧ isAllowed c = true :=
    Json.IsHexDigit.cases (P := fun _ c => c ≠ '\r' ∧ isAllowed c = true) (by decide)
  obtain ⟨k, l, m, n⟩ := spells
  exact .cons (digit k) (.cons (digit l) (.cons (digit m) (.cons (digit n) fair_nil)))

/-- A string with a character that is refused is no key. -/
theorem fair_string {chars body : List Char} (spells : SpellsString chars body) :
    Fair (¬IsKey (.ofList chars)) body := by
  suffices fair : Fair (¬Wordy chars) body from fair.imp fun odd key => odd (Tokenizer.isKey_wordy key).1
  have later {c : Char} {chars : List Char} (odd : ¬Wordy chars) : ¬Wordy (c :: chars) :=
    fun wordy => odd fun d member => wordy d (List.mem_cons_of_mem c member)
  induction spells with
  | done => exact fair_nil
  | @raw c chars body _ _ visible _ ih =>
      refine List.forall_mem_cons.mpr ⟨⟨?_, ?_⟩, ih.imp later⟩
      · rintro rfl
        exact absurd visible (by decide)
      · by_cases word : isWord c = true
        · exact .inl (isWord_cases (P := fun c => isAllowed c = true) (by decide) word)
        · exact .inr fun wordy => word (wordy c List.mem_cons_self)
  | escaped listed _ ih =>
      have all : ∀ pair ∈ Json.escapes, pair.1 ≠ '\r' ∧ isAllowed pair.1 = true := by decide
      exact .cons (by decide) (.cons (all _ listed) (ih.imp later))
  | unit spells _ _ _ ih =>
      exact .cons (by decide) (.cons (by decide) ((fair_unit spells).append (ih.imp later)))
  | pair spells _ spells' _ _ ih =>
      exact .cons (by decide) (.cons (by decide) ((fair_unit spells).append
        (.cons (by decide) (.cons (by decide) ((fair_unit spells').append (ih.imp later))))))

theorem fair_quoted {body : List Char} (fair : Fair strange body) :
    Fair strange ('"' :: (body ++ ['"'])) :=
  .cons (by decide) (fair.append (.cons (by decide) fair_nil))

mutual

theorem fair_value : ∀ {value text}, Spells Compact value text → Fair (Strange value) text
  | _, _, .null | _, _, .boolTrue | _, _, .boolFalse => fair_of_visible (by decide)
  | _, _, .number spells => fair_of_visible ((numeral_number spells).all (by decide))
  | _, _, .string spells => (fair_quoted (fair_string spells)).imp .string
  | _, _, .noItems empty => .cons (by decide) (by rw [empty]; exact .cons (by decide) fair_nil)
  | _, _, .array spells => .cons (by decide) ((fair_items spells).append (.cons (by decide) fair_nil))
  | _, _, .noFields empty => .cons (by decide) (by rw [empty]; exact .cons (by decide) fair_nil)
  | _, _, .object spells => .cons (by decide) ((fair_fields spells).append (.cons (by decide) fair_nil))

theorem fair_item : ∀ {value text}, SpellsItem Compact value text → Fair (Strange value) text
  | _, _, .between empty spells empty' => by
    obtain rfl := empty
    obtain rfl := empty'
    exact fair_nil.append ((fair_value spells).append fair_nil)

theorem fair_items : ∀ {items text}, SpellsItems Compact items text → Fair (Strange (.array items)) text
  | _, _, .last spells => (fair_item spells).imp (.item List.mem_cons_self)
  | _, _, .more spells later => ((fair_item spells).imp (.item List.mem_cons_self)).append
    (.cons (by decide) ((fair_items later).imp fun strange =>
      strange.more_items (List.subset_cons_self _ _)))

theorem fair_field : ∀ {field text}, SpellsField Compact field text →
    Fair (Strange (.object [field])) text
  | _, _, .named empty name empty' spells => by
    obtain rfl := empty
    obtain rfl := empty'
    exact .cons (by decide) (((fair_string name).imp fun other => .name List.mem_cons_self other).append
      (.cons (by decide) (.cons (by decide)
        ((fair_item spells).imp fun strange => .field List.mem_cons_self strange))))

theorem fair_fields : ∀ {fields text}, SpellsFields Compact fields text →
    Fair (Strange (.object fields)) text
  | _, _, .last spells => fair_field spells
  | _, _, .more spells later =>
    ((fair_field spells).imp fun strange => strange.more_fields (by simp)).append
      (.cons (by decide) ((fair_fields later).imp fun strange =>
        strange.more_fields (List.subset_cons_self _ _)))

end

/-! The tokens and the node of a whole text. -/

theorem Tokenizer.Flat.finish {t : Tokenizer} (flat : Tokenizer.Flat t) (ended : t.rest = []) (fuel : Nat) :
    Tokenizer.tokens? (fuel + 1) t = some t.tokens.reverse := by
  have stays : t.toNextToken = t := by
    rw [toNextToken, ended, skipGap]
    simp [← ended]
  have left : t.settle.rest = [] := settle_rest.trans ended
  rw [Tokenizer.tokens?, stays, flat.dropStale?]
  dsimp only
  rw [if_pos left, flat.settle.closeBlocks, flat.settle.forgetKey?, Tokenizer.settle]
  split <;> rfl

variable {value : Value} {spelled : List Char}

theorem tokens?_spelled (spells : Spells Compact value spelled) :
    (tokens? spelled = none ∧ Strange value) ∨
      ∃ tokens, tokens? spelled = some tokens ∧ Reads value tokens := by
  have fair := fair_value spells
  rw [tokens?]
  by_cases allowed : spelled.all isAllowed = true
  · rw [if_pos allowed, unifyBreaks_eq_map fun c member => (fair c member).1]
    have ready : Tokenizer.Ready { rest := spelled.map unifyBreak } := ⟨⟨rfl, rfl, by simp⟩, rfl⟩
    have starts : ({ rest := spelled.map unifyBreak } : Tokenizer).rest = spelled.map unifyBreak ++ [] :=
      (List.append_nil _).symm
    obtain ⟨fails, strange⟩ | ⟨tokens, t, reads, ⟨k, few, same⟩, after⟩ :=
      scans_value spells ready starts fun _ => nofun
    · exact .inl ⟨fails _, strange⟩
    · refine .inr ⟨tokens, ?_, reads⟩
      obtain ⟨fuel, enough⟩ : ∃ fuel, spelled.length + 1 = fuel + 1 + k := ⟨spelled.length - k, by omega⟩
      rw [enough, same, after.toFlat.finish after.rest, after.tokens]
      simp
  · refine .inl ⟨if_neg allowed, ?_⟩
    simp only [List.all_eq_true, not_forall] at allowed
    obtain ⟨c, member, refused⟩ := allowed
    exact (fair c member).2.resolve_left refused

theorem document?_spelled (spells : Spells Compact value spelled) :
    (document? spelled = none ∧ Strange value) ∨
      ∃ root, document? spelled = some (some { root, targets := [] }) ∧ Like value root := by
  rw [document?]
  obtain ⟨failed, strange⟩ | ⟨tokens, found, reads⟩ := tokens?_spelled spells
  · exact .inl ⟨by rw [failed]; rfl, strange⟩
  obtain ⟨failed, strange⟩ | ⟨node, read, root, numbered, like⟩ := reads.document
  · refine .inl ⟨?_, strange⟩
    simp [found, failed]
  · refine .inr ⟨root, ?_, like⟩
    simp [found, read, numbered]

end PolicyAcl.Yaml

namespace PolicyAcl.Config

open Json (Value Spells Compact)
open Yaml (Node IsKey SameKey Strange Like LikeFields Numeral)

/-! What a node tells is what its value tells. -/

/-- Fields with the same keys for a configuration and values that are alike. -/
abbrev Alike : List (String × Value) → List (String × Node Nat) → Prop :=
  List.Forall₂ fun field read => SameKey field.1 read.1 ∧ Like field.2 read.2

theorem keyed_alike {fields : List (String × Value)} {entries : List (Node Nat × Node Nat)}
    (like : LikeFields fields entries) :
    ∃ read, (entries.mapM fun (key, value) => do return (← keyOfYaml? [] key, value)) = some read ∧
      Alike fields read := by
  induction fields generalizing entries with
  | nil =>
      cases like
      exact ⟨[], rfl, .nil⟩
  | cons field fields ih =>
      cases like with
      | @cons name text value node _ entries same like later =>
          obtain ⟨read, found, alike⟩ := ih later
          refine ⟨(text, node) :: read, ?_, .cons ⟨same, like⟩ alike⟩
          rw [List.mapM_cons, found]
          rfl

theorem recordOfYaml?_like {fields : List (String × Value)} {entries : List (Node Nat × Node Nat)}
    (like : LikeFields fields entries) (names : List String) :
    ∃ read, recordOfYaml? [] names (.mapping none entries) = fields? names read ∧ Alike fields read := by
  obtain ⟨read, same, alike⟩ := keyed_alike like
  refine ⟨read, ?_, alike⟩
  rw [recordOfYaml?, same]
  rfl

theorem keys_alike {fields : List (String × Value)} {read : List (String × Node Nat)}
    (alike : Alike fields read) {names : List String} (keys : ∀ name ∈ names, IsKey name)
    (listed : (∀ key ∈ fields.map (·.1), key ∈ names) ∨ ∀ key ∈ read.map (·.1), key ∈ names) :
    read.map (·.1) = fields.map (·.1) := by
  induction alike with
  | nil => rfl
  | @cons field read' fields reads alike _ ih =>
      simp only [List.map_cons, List.forall_mem_cons] at listed ⊢
      have same : read'.1 = field.1 := by
        rcases listed with ⟨known, -⟩ | ⟨known, -⟩
        · exact (alike.1 _ (keys _ known)).mpr rfl
        · exact ((alike.1 _ (keys _ known)).mp rfl).symm
      rw [same, ih (listed.imp And.right And.right)]

theorem lookup_alike {fields : List (String × Value)} {read : List (String × Node Nat)}
    (alike : Alike fields read) {key : String} (known : IsKey key) :
    Option.Rel Like (fields.lookup key) (read.lookup key) := by
  induction alike with
  | nil => exact .none
  | @cons field read' fields reads alike _ ih =>
      obtain ⟨name, value⟩ := field
      obtain ⟨text, node⟩ := read'
      have same : text = key ↔ name = key := alike.1 key known
      by_cases here : name = key
      · obtain rfl := here
        obtain rfl := same.mpr rfl
        simpa using Option.Rel.some alike.2
      · have other : text ≠ key := same.not.mpr here
        simpa [List.lookup_cons, beq_eq_false_iff_ne.mpr (Ne.symm here),
          beq_eq_false_iff_ne.mpr other.symm] using ih

theorem fields?_alike {fields : List (String × Value)} {read : List (String × Node Nat)}
    (alike : Alike fields read) {names : List String} (keys : ∀ name ∈ names, IsKey name) :
    Option.Rel (List.Forall₂ (Option.Rel Like)) (fields? names fields) (fields? names read) := by
  have values : List.Forall₂ (Option.Rel Like) (names.map (fields.lookup ·))
      (names.map (read.lookup ·)) := by
    rw [List.forall₂_map_left_iff, List.forall₂_map_right_iff]
    exact List.forall₂_same.mpr fun name member => lookup_alike alike (keys name member)
  by_cases listed : ∀ key ∈ fields.map (·.1), key ∈ names
  · have same := keys_alike alike keys (.inl listed)
    by_cases distinct : (fields.map (·.1)).Nodup
    · have known : (read.map (·.1)).Nodup ∧ ∀ key ∈ read.map (·.1), key ∈ names := same ▸ ⟨distinct, listed⟩
      rw [fields?, fields?, if_pos ⟨distinct, listed⟩, if_pos known]
      exact .some values
    · have repeated : ¬(read.map (·.1)).Nodup := same ▸ distinct
      rw [fields?, fields?, if_neg fun both => distinct both.1, if_neg fun both => repeated both.1]
      exact .none
  · have unlisted : ¬∀ key ∈ read.map (·.1), key ∈ names := fun known =>
      listed (keys_alike alike keys (.inr known) ▸ known)
    rw [fields?, fields?, if_neg fun both => listed both.2, if_neg fun both => unlisted both.2]
    exact .none

theorem boolOfWord?_numeral {word : String} (numeral : Numeral word.toList) : boolOfWord? word = none := by
  have notTrue : ∀ word ∈ ["true", "True", "TRUE"], ¬Numeral word.toList := by decide +kernel
  have notFalse : ∀ word ∈ ["false", "False", "FALSE"], ¬Numeral word.toList := by decide +kernel
  rw [boolOfWord?, if_neg fun listed => notTrue word listed numeral,
    if_neg fun listed => notFalse word listed numeral]

theorem isNullWord_numeral {word : String} (some : word ≠ "") (numeral : Numeral word.toList) :
    isNullWord word = false := by
  have other : ∀ word ∈ ["~", "null", "Null", "NULL"], ¬Numeral word.toList := by decide +kernel
  rw [isNullWord, decide_eq_false_iff_not, List.mem_cons]
  rintro (empty | listed)
  · exact some empty
  · exact other word listed numeral

theorem flagOfYaml?_like {value? : Option Value} {node? : Option (Node Nat)}
    (like : Option.Rel Like value? node?) : flagOfYaml? [] node? = flagOfJson? value? := by
  cases like with
  | none => rfl
  | some like =>
      cases like with
      | number _ numeral => exact boolOfWord?_numeral numeral
      | _ => rfl

/-- The flags of a node, unless the value is an array or null. -/
theorem flagsOfYaml?_like {value : Value} {node : Node Nat} (like : Like value node)
    (noArray : ∀ items, value ≠ .array items) (present : value ≠ .null) :
    flagsOfYaml? [] node = (flagsOfJson? value).map some := by
  cases like with
  | null => exact absurd rfl present
  | array => exact absurd rfl (noArray _)
  | boolTrue | boolFalse | string => rfl
  | number some numeral =>
      have other := isNullWord_numeral some numeral
      simp [flagsOfYaml?, Node.resolve?, other, flagsOfJson?, recordOfJson?]
  | @object fields entries like =>
      have keys : ∀ name ∈ [ipv4Key, ipv6Key], IsKey name := by simp [IsKey]
      obtain ⟨read, same, alike⟩ := recordOfYaml?_like like [ipv4Key, ipv6Key]
      have rel := fields?_alike alike keys
      simp only [flagsOfYaml?, Node.resolve?, same, flagsOfJson?, recordOfJson?]
      revert rel
      generalize fields? [ipv4Key, ipv6Key] fields = values
      generalize fields? [ipv4Key, ipv6Key] read = nodes
      rintro (@⟨_, _, _ | ⟨ipv4, _ | ⟨ipv6, _ | ⟨_, _⟩⟩⟩⟩ | _)
      · rfl
      · rfl
      · dsimp only
        rw [flagOfYaml?_like ipv4, flagOfYaml?_like ipv6]
        simp [Option.map_bind]
      · rfl
      · rfl

theorem documentOfYaml?_mapping (entries : List (Node Nat × Node Nat)) :
    documentOfYaml? (some ⟨.mapping none entries, []⟩) =
      match recordOfYaml? [] [familiesKey] (.mapping none entries) with
      | some [none] => some none
      | some [some families] => flagsOfYaml? [] families
      | _ => none := rfl

theorem documentOfYaml?_like {value : Value} {root : Node Nat} (like : Like value root)
    (noArray : ∀ items, value ≠ .array items)
    (noArrays : ∀ fields, value = .object fields → ∀ items, ("families", .array items) ∉ fields) :
    documentOfYaml? (some ⟨root, []⟩) = documentOfJson? value := by
  cases like with
  | null | boolTrue | boolFalse | string => rfl
  | number some _ => simp [documentOfYaml?, some, documentOfJson?, recordOfJson?]
  | array => exact absurd rfl (noArray _)
  | @object fields entries like =>
      have keys : ∀ name ∈ [familiesKey], IsKey name := by simp [IsKey]
      obtain ⟨read, same, alike⟩ := recordOfYaml?_like like [familiesKey]
      have rel := fields?_alike alike keys
      have present {families : Value} (found : fields? [familiesKey] fields = some [some families]) :
          ("families", families) ∈ fields := by
        obtain ⟨distinct, -, same⟩ := fields?_eq_some.mp found
        rw [List.map_singleton, List.singleton_inj] at same
        exact (mem_iff_lookup distinct).mpr same.symm
      rw [documentOfYaml?_mapping, same, documentOfJson?, recordOfJson?]
      generalize fields? [familiesKey] fields = values at rel present ⊢
      generalize fields? [familiesKey] read = nodes at rel ⊢
      cases rel with
      | none => rfl
      | some rel =>
          rcases rel with _ | ⟨first, _ | ⟨second, _⟩⟩
          · rfl
          · cases first with
            | none => rfl
            | @some families node like =>
                have noArray (items : List Value) (same : families = .array items) : False :=
                  noArrays fields rfl items (same ▸ present rfl)
                cases families with
                | null =>
                    cases like
                    rfl
                | _ => exact flagsOfYaml?_like like noArray (by simp)
          · cases first with
            | none => rfl
            | @some families _ _ => cases families <;> rfl

/-! A strange value is no configuration. -/

theorem ordinary_record {value : Value} {families? : Option Value} (has : HasFamilies value families?)
    (ordinary : ∀ families, families? = some families → ¬Strange families) : ¬Strange value := by
  have key : IsKey "families" := by simp [IsKey, familiesKey]
  intro strange
  cases has with
  | emptyObject =>
      cases strange with
      | name member | field member => cases member
  | emptyArray =>
      cases strange with
      | item member => cases member
  | object families =>
      cases strange with
      | name member other =>
          obtain rfl := List.mem_singleton.mp member
          exact other key
      | field member strange =>
          obtain rfl := List.mem_singleton.mp member
          exact ordinary families rfl strange
  | array families =>
      cases strange with
      | item member strange => exact ordinary families rfl (List.mem_singleton.mp member ▸ strange)

theorem ordinary_flags {value : Value} {flags : FamilyFlags} (tells : TellsFlags value flags) :
    ¬Strange value := by
  intro strange
  cases tells with
  | object _ given =>
      cases strange with
      | name member other => exact other (List.mem_cons_of_mem _ (given _ member).1)
      | field member strange =>
          obtain ⟨-, flag, same⟩ := given _ member
          rw [same] at strange
          cases strange
  | array =>
      cases strange with
      | item member strange =>
          obtain ⟨flag, -, rfl⟩ := List.mem_map.mp member
          cases strange

theorem ordinary_of_tells {value : Value} {told : Option FamilyFlags} (tells : Tells value told) :
    ¬Strange value := by
  cases tells with
  | absent has => exact ordinary_record has fun _ => nofun
  | null has =>
      refine ordinary_record has ?_
      rintro _ ⟨⟩ ⟨⟩
  | flags has given =>
      refine ordinary_record has ?_
      rintro _ ⟨⟩
      exact ordinary_flags given

theorem ofYaml_eq_ofJson {value : Value} {text : String} (spells : Spells Compact value text.toList)
    (noArray : ∀ items, value ≠ .array items)
    (noArrays : ∀ fields, value = .object fields → ∀ items, ("families", .array items) ∉ fields) :
    ofYaml text = ofJson text := by
  rw [ofJson_of_document spells.document, ofYaml]
  obtain ⟨failed, strange⟩ | ⟨root, read, like⟩ := Yaml.document?_spelled spells
  · have untold : documentOfJson? value = none := Option.eq_none_iff_forall_ne_some.mpr fun told found =>
      ordinary_of_tells (documentOfJson?_eq_some.mp found) strange
    rw [failed, untold]
    rfl
  · rw [read, ← documentOfYaml?_like like noArray noArrays]
    rfl

/-- A value that is no array, and whose families are none, has compact texts, and each of them
is loaded from YAML as it is from JSON. -/
theorem compact_json_loads_as_yaml (value : Value) (noArray : ∀ items, value ≠ .array items)
    (noArrays : ∀ fields, value = .object fields → ∀ items, ("families", .array items) ∉ fields) :
    (∃ text : String, Spells Compact value text.toList) ∧
    ∀ text : String, Spells Compact value text.toList →
      (∃ families, ofYaml text = .ok { families } ∧ ofJson text = .ok { families }) ∨
      (ofYaml text = .error .noFamily ∧ ofJson text = .error .noFamily) ∨
      (ofYaml text = .error .malformed ∧ ofJson text = .error .malformed) := by
  constructor
  · obtain ⟨text, spells⟩ := Json.exists_spells (show Compact [] from rfl) value
    exact ⟨.ofList text, by rwa [String.toList_ofList]⟩
  · intro text spells
    rw [ofYaml_eq_ofJson spells noArray noArrays, ofJson_of_document spells.document]
    cases documentOfJson? value with
    | none => exact .inr (.inr ⟨rfl, rfl⟩)
    | some told =>
        cases loaded : ofFlags told with
        | ok config => exact .inl ⟨config.families, loaded, loaded⟩
        | error error =>
            obtain ⟨-, rfl⟩ := ofFlags_eq_error.mp loaded
            exact .inr (.inl ⟨loaded, loaded⟩)

/-- A key with an escaped letter is the key that it spells. -/
theorem compact_json_loads_as_yaml_escaped_key :
    (∀ items, Value.object [("families", .object [("ipv6", .bool true)])] ≠ .array items) ∧
    (∀ fields, Value.object [("families", .object [("ipv6", .bool true)])] = .object fields →
      ∀ items, ("families", .array items) ∉ fields) ∧
    ofYaml "\x7b\"f\\u0061milies\":\x7b\"ipv6\":true\x7d\x7d" = .ok { families := .ipv6Only } := by
  have noArray : ∀ items, Value.object [("families", .object [("ipv6", .bool true)])] ≠ .array items :=
    nofun
  have noArrays : ∀ fields, Value.object [("families", .object [("ipv6", .bool true)])] = .object fields →
      ∀ items, ("families", .array items) ∉ fields := by
    rintro _ ⟨⟩ items member
    simp at member
  have empty : Compact [] := rfl
  have escaped : Json.SpellsString "families".toList "f\\u0061milies".toList :=
    .raw (by decide) (by decide) (by decide) (.unit
      (.digits (k := 0) (l := 0) (m := 6) (n := 1) (by decide) (by decide) (by decide) (by decide))
      (fun high => absurd high.1 (by decide)) (fun low => absurd low.1 (by decide)) (.plain (by decide)))
  have ipv6 : Json.SpellsField Compact (.ofList "ipv6".toList, .bool true) _ :=
    .named empty (.plain (by decide)) empty (.between empty .boolTrue empty)
  have families : Json.SpellsField Compact (.ofList "families".toList, .object [("ipv6", .bool true)]) _ :=
    .named empty escaped empty (.between empty (.object (.last ipv6)) empty)
  have spells : Spells Compact (.object [("families", .object [("ipv6", .bool true)])])
      "\x7b\"f\\u0061milies\":\x7b\"ipv6\":true\x7d\x7d".toList := .object (.last families)
  have flags : TellsFlags (.object [("ipv6", .bool true)]) ⟨false, true⟩ :=
    flagsOfJson?_eq_some.mp (by decide)
  have loaded := ofJson_of_tells spells.document (.flags (.object _) flags)
  refine ⟨noArray, noArrays, ?_⟩
  obtain ⟨ok, yaml, json⟩ | ⟨-, json⟩ | ⟨-, json⟩ :=
    (compact_json_loads_as_yaml _ noArray noArrays).2 _ spells
  · rw [yaml, ← json, loaded]
    rfl
  · rw [loaded] at json
    cases json
  · rw [loaded] at json
    cases json

end PolicyAcl.Config
