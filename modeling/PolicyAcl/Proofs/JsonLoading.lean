import PolicyAcl.Proofs.JsonConfig

/-! The ways to load a configuration from JSON. A loader that checks the families as soon as a
value is complete differs from one that reads the whole text first in nothing but which of two
faults it names, and families are loaded from a text of their own as they are from a record
around it. -/
namespace PolicyAcl.Config

open Json (Value Document Blanks Spells SpellsString SpellsField SpellsFields SpellsItem)

variable {α : Type} {text : String} {value : Value} {decode : Value → Except ConfigError α}

theorem decodeLeading_of_read {rest : List Char} (read : Json.read? text.toList = some (value, rest)) :
    decodeLeading decode text =
      (decode value).bind fun result =>
        if Json.skipBlanks rest = [] then .ok result else .error .malformed := by
  rw [decodeLeading, read]
  rfl

theorem decodeLeading_of_unread (unread : Json.read? text.toList = none) :
    decodeLeading decode text = .error .malformed := by
  rw [decodeLeading, unread]

/-- A result is decoded from nothing but a whole document. -/
theorem decodeLeading_eq_ok {result : α} :
    decodeLeading decode text = .ok result ↔
      ∃ value, Document value text.toList ∧ decode value = .ok result := by
  simp only [← Json.document?_eq_some, Json.document?]
  cases read : Json.read? text.toList with
  | none => simp [decodeLeading_of_unread read]
  | some found =>
      obtain ⟨value, rest⟩ := found
      rw [decodeLeading_of_read read]
      by_cases blank : Json.skipBlanks rest = []
      · cases decoded : decode value <;> simp [blank, decoded, Except.bind]
      · cases decoded : decode value <;> simp [blank, Except.bind]

/-- What is decoded from the value of a document. -/
def tellConfig (value : Value) : Except ConfigError Config :=
  match documentOfJson? value with
  | some told => ofFlags told
  | none => .error .malformed

theorem decodeJson_eq : decodeJson = decodeLeading tellConfig := rfl

theorem ofJson_eq {result : Except ConfigError Config} (read : result ≠ .error .malformed) :
    ofJson text = result ↔ ∃ value, Document value text.toList ∧ tellConfig value = result := by
  constructor
  · intro loaded
    by_cases document : ∃ value, Document value text.toList
    · obtain ⟨value, spells⟩ := document
      exact ⟨value, spells, (ofJson_of_document spells).symm.trans loaded⟩
    · rw [ofJson_of_no_document fun value spells => document ⟨value, spells⟩] at loaded
      exact absurd loaded.symm read
  · rintro ⟨value, spells, told⟩
    exact (ofJson_of_document spells).trans told

theorem ofJson_eq_ok {config : Config} :
    ofJson text = .ok config ↔
      ∃ value, Document value text.toList ∧ tellConfig value = .ok config :=
  ofJson_eq (by simp)

theorem ofJson_eq_noFamily :
    ofJson text = .error .noFamily ↔
      ∃ value, Document value text.toList ∧ tellConfig value = .error .noFamily :=
  ofJson_eq (by simp)

theorem tellConfig_eq_noFamily :
    tellConfig value = .error .noFamily ↔ Tells value (some ⟨false, false⟩) := by
  rw [← documentOfJson?_eq_some, tellConfig]
  cases documentOfJson? value with
  | none => simp
  | some told => simp [ofFlags_eq_error]

theorem tellConfig_error {error : ConfigError} (failed : tellConfig value = .error error) :
    error = .noFamily ∨ error = .malformed := by
  unfold tellConfig at failed
  split at failed
  · exact .inl (ofFlags_eq_error.mp failed).2
  · exact .inr (Except.error.inj failed).symm

/-- What tells something about the families ends by itself. -/
theorem Tells.ends {told : Option FamilyFlags} (tells : Tells value told) (rest : List Char) :
    Json.Ends value rest := by
  rintro number rfl
  rcases tells with ⟨⟨⟩⟩ | ⟨⟨⟩⟩ | ⟨⟨⟩⟩

/-- A document that tells something is read up to its own end, whatever follows it. -/
theorem read?_front {front : String} {told : Option FamilyFlags} (spells : Document value front.toList)
    (tells : Tells value told) (back : String) :
    ∃ after, Blanks after ∧ Json.read? (front ++ back).toList = some (value, after ++ back.toList) := by
  rw [String.toList_append]
  generalize front.toList = text at spells
  obtain ⟨blank, spells, blank'⟩ := spells
  refine ⟨_, blank', ?_⟩
  rw [List.append_assoc, List.append_assoc]
  exact Json.read?_complete blank spells (tells.ends _)

/-- What a text that is read in part is split into. -/
theorem front_of_read {rest : List Char} (read : Json.read? text.toList = some (value, rest)) :
    ∃ front back : String, text = front ++ back ∧ Document value front.toList ∧ back.toList = rest := by
  obtain ⟨before, spelled, split, blank, spells⟩ := Json.read?_sound read
  have front : Document value (before ++ (spelled ++ [])) := .between blank spells fun _ => nofun
  refine ⟨.ofList (before ++ (spelled ++ [])), .ofList rest, ?_, by simpa using front, by simp⟩
  rw [← String.toList_inj]
  simpa using split

theorem no_document_of_read {rest : List Char} (read : Json.read? text.toList = some (value, rest))
    (more : ¬Blanks rest) (value' : Value) : ¬Document value' text.toList := by
  intro spells
  rw [← Json.document?_eq_some, Json.document?, read] at spells
  simp [Json.skipBlanks_eq_nil, more] at spells

theorem decodeJson_eq_noFamily :
    decodeJson text = .error .noFamily ↔
      ∃ front back : String, text = front ++ back ∧ (∃ value, Document value front.toList) ∧
        ofJson front = .error .noFamily := by
  constructor
  · intro failed
    cases read : Json.read? text.toList with
    | none =>
        rw [decodeJson_eq, decodeLeading_of_unread read] at failed
        cases failed
    | some found =>
        obtain ⟨value, rest⟩ := found
        obtain ⟨front, back, split, spells, -⟩ := front_of_read read
        rw [decodeJson_eq, decodeLeading_of_read read] at failed
        have refused : tellConfig value = .error .noFamily := by
          cases told : tellConfig value with
          | error error => simpa [told, Except.bind] using failed
          | ok config =>
              rw [told, Except.bind] at failed
              split at failed <;> cases failed
        exact ⟨front, back, split, ⟨value, spells⟩, ofJson_eq_noFamily.mpr ⟨value, spells, refused⟩⟩
  · rintro ⟨front, back, rfl, -, failed⟩
    obtain ⟨value, spells, refused⟩ := ofJson_eq_noFamily.mp failed
    obtain ⟨after, -, read⟩ := read?_front spells (tellConfig_eq_noFamily.mp refused) back
    rw [decodeJson_eq, decodeLeading_of_read read, refused]
    rfl

theorem ofJson_of_more {front back : String} (failed : ofJson front = .error .noFamily)
    (more : ¬Blanks back.toList) : ofJson (front ++ back) = .error .malformed := by
  obtain ⟨value, spells, refused⟩ := ofJson_eq_noFamily.mp failed
  obtain ⟨after, blank, read⟩ := read?_front spells (tellConfig_eq_noFamily.mp refused) back
  refine ofJson_of_no_document (no_document_of_read read fun blank' => more ?_)
  exact fun c member => blank' c (List.mem_append_right after member)

/-- The two loaders agree unless something follows a document that is refused. -/
theorem decodeJson_cases (text : String) :
    decodeJson text = ofJson text ∨
      ∃ front back : String, text = front ++ back ∧ ofJson front = .error .noFamily ∧
        ¬Blanks back.toList := by
  cases read : Json.read? text.toList with
  | none =>
      refine .inl ?_
      rw [decodeJson_eq, decodeLeading_of_unread read, ofJson, Json.document?, read]
      rfl
  | some found =>
      obtain ⟨value, rest⟩ := found
      obtain ⟨front, back, split, spells, rfl⟩ := front_of_read read
      rw [decodeJson_eq, decodeLeading_of_read read]
      by_cases blank : Json.skipBlanks back.toList = []
      · refine .inl ?_
        have whole : Json.document? text.toList = some value := by
          rw [Json.document?, read]
          exact if_pos blank
        rw [ofJson_of_document (Json.document?_eq_some.mp whole)]
        change _ = tellConfig value
        cases tellConfig value <;> simp [Except.bind, blank]
      · have more : ¬Blanks back.toList := Json.skipBlanks_eq_nil.not.mp blank
        rw [ofJson_of_no_document (no_document_of_read read more)]
        cases told : tellConfig value with
        | ok config => exact .inl (if_neg blank)
        | error error =>
            rcases tellConfig_error told with rfl | rfl
            · exact .inr ⟨front, back, split, ofJson_eq_noFamily.mpr ⟨value, spells, told⟩, more⟩
            · exact .inl rfl

/-! A text as the value of the field of a record. -/

/-- The record whose only field has a text for its value. -/
def wrap (text : String) : String := "\x7b\"families\":" ++ text ++ "\x7d"

theorem wrap_toList (text : String) :
    (wrap text).toList =
      '\x7b' :: '"' :: ("families".toList ++ '"' :: ':' :: (text.toList ++ ['\x7d'])) := by
  simp [wrap]

theorem families_spelled : SpellsString "families".toList "families".toList :=
  .plain (by decide)

/-- What ends in a brace has no blank after a brace that ends it. -/
theorem eq_of_last_brace {inner text blanks : List Char} (blank : Blanks blanks)
    (same : inner ++ '\x7d' :: blanks = text ++ ['\x7d']) : inner = text := by
  rcases List.eq_nil_or_concat blanks with rfl | ⟨front, last, rfl⟩
  · exact List.append_cancel_right same
  · have listed := blank last (by simp)
    have ends : last = '\x7d' := by
      have lasts := congrArg (List.getLast? ∘ List.tail) (congrArg ('.' :: ·) same)
      simpa [List.getLast?_append, List.getLast?_cons] using lasts
    subst ends
    simp at listed

theorem blanks_cons_eq {blanks rest tail : List Char} {c d : Char} (blank : Blanks blanks)
    (visible : Json.isBlank c = false) (visible' : Json.isBlank d = false)
    (same : blanks ++ c :: rest = d :: tail) : blanks = [] ∧ c = d ∧ rest = tail := by
  have skipped := congrArg Json.skipBlanks same
  rw [Json.skipBlanks_append blank, Json.skipBlanks_cons visible, Json.skipBlanks_cons visible'] at skipped
  obtain ⟨rfl, rfl⟩ := skipped
  exact ⟨List.append_left_eq_self.mp same, rfl, rfl⟩

/-- The value of a text in braces that starts with a name. -/
theorem document_wrap_inv {families? : Option Value} {wrapped : List Char}
    (spells : Document value wrapped) (has : HasFamilies value families?)
    (same : wrapped = (wrap text).toList) :
    ∃ families, families? = some families ∧ Document families text.toList := by
  rw [wrap_toList] at same
  obtain @⟨_, before, spelled, after, blank, spells, blank'⟩ := spells
  have opened {inner : List Char} {c : Char} (visible : Json.isBlank c = false)
      (starts : spelled = c :: inner) : c = '\x7b' ∧
        inner ++ after = '"' :: ("families".toList ++ '"' :: ':' :: (text.toList ++ ['\x7d'])) := by
    subst starts
    exact (blanks_cons_eq blank visible rfl same).2
  cases has with
  | emptyArray =>
      cases spells with
      | noItems => exact absurd (opened rfl rfl).1 (by decide)
      | array spells => cases spells
  | array families =>
      cases spells with
      | array => exact absurd (opened rfl rfl).1 (by decide)
  | emptyObject =>
      cases spells with
      | noFields gap =>
          have closed := (opened rfl rfl).2
          rw [List.append_assoc] at closed
          exact absurd (blanks_cons_eq gap rfl rfl closed).2.1 (by decide)
      | object spells => cases spells
  | object families =>
      cases spells with
      | object spells =>
          rcases spells with field | ⟨_, ⟨⟩⟩
          obtain ⟨gap, body, gap', item, rfl, blanks, named, blanks', spells⟩ := field.parts
          have closed := (opened rfl rfl).2
          simp only [List.append_assoc, List.cons_append] at closed
          obtain ⟨-, -, closed⟩ := blanks_cons_eq blanks rfl rfl closed
          have read := Json.readString?_complete named (gap' ++ ':' :: (item ++ ([] ++ ['\x7d'] ++ after)))
          have read' := Json.readString?_complete families_spelled (':' :: (text.toList ++ ['\x7d']))
          simp only [List.nil_append, List.cons_append] at read read' closed
          rw [closed, read'] at read
          obtain ⟨-, read⟩ := Prod.ext_iff.mp (Option.some.inj read)
          obtain ⟨-, -, closed⟩ := blanks_cons_eq blanks' rfl rfl read.symm
          exact ⟨families, rfl, eq_of_last_brace blank' closed ▸ spells⟩

/-- Nothing in a text can close the record around it, or give it a second field. -/
theorem document_wrap {families? : Option Value} :
    (∃ value, Document value (wrap text).toList ∧ HasFamilies value families?) ↔
      ∃ families, families? = some families ∧ Document families text.toList := by
  constructor
  · rintro ⟨value, spells, has⟩
    exact document_wrap_inv spells has rfl
  · rintro ⟨families, rfl, spells⟩
    refine ⟨.object [("families", families)], ?_, .object families⟩
    have none : Blanks [] := fun _ => nofun
    have field : SpellsField Blanks (.ofList "families".toList, families)
        ([] ++ '"' :: ("families".toList ++ '"' :: ([] ++ ':' :: text.toList))) :=
      .named none families_spelled none spells
    have record := SpellsItem.between none (.object (.last field)) none
    rw [wrap_toList]
    simpa [Document] using record

theorem decodeFamilies_eq_ok {families : Families} :
    decodeFamilies text = .ok families ↔
      ∃ value, Document value text.toList ∧ TellsFlags value ⟨families.ipv4, families.ipv6⟩ := by
  rw [decodeFamilies, decodeLeading_eq_ok]
  refine exists_congr fun value => and_congr_right fun _ => ?_
  rw [← flagsOfJson?_eq_some]
  cases flagsOfJson? value with
  | none => simp
  | some flags => simp [enable_eq_ok]

/-- What is loaded from the record around a text. -/
theorem ofJson_wrap_eq_ok {families : Families} :
    ofJson (wrap text) = .ok { families } ↔
      (Document .null text.toList ∧ families = .ipv4Only) ∨
        ∃ value, Document value text.toList ∧ TellsFlags value ⟨families.ipv4, families.ipv6⟩ := by
  have loaded : ofJson (wrap text) = .ok { families } ↔
      ∃ value, Document value (wrap text).toList ∧ ∃ told, Tells value told ∧ Enables told families := by
    rw [ofJson_eq_ok]
    refine exists_congr fun value => and_congr_right fun _ => ?_
    simp only [← documentOfJson?_eq_some, ← ofFlags_eq_ok, tellConfig]
    cases documentOfJson? value <;> simp
  rw [loaded]
  constructor
  · rintro ⟨value, spells, told, tells, enables⟩
    cases tells with
    | absent has =>
        obtain ⟨_, ⟨⟩, -⟩ := document_wrap.mp ⟨value, spells, has⟩
    | null has =>
        obtain ⟨_, ⟨⟩, spells⟩ := document_wrap.mp ⟨value, spells, has⟩
        exact .inl ⟨spells, enables⟩
    | flags has given =>
        obtain ⟨_, ⟨⟩, spells⟩ := document_wrap.mp ⟨value, spells, has⟩
        obtain rfl := enables
        exact .inr ⟨_, spells, given⟩
  · rintro (⟨spells, only⟩ | ⟨_, spells, given⟩)
    · obtain ⟨value, spells, has⟩ := document_wrap.mpr ⟨_, rfl, spells⟩
      exact ⟨value, spells, none, .null has, only⟩
    · obtain ⟨value, spells, has⟩ := document_wrap.mpr ⟨_, rfl, spells⟩
      exact ⟨value, spells, some _, .flags has given, rfl⟩

theorem document_null {null : List Char} (spells : Document .null null) :
    ∃ before after, Blanks before ∧ Blanks after ∧ null = before ++ ("null".toList ++ after) := by
  obtain ⟨blank, ⟨⟩, blank'⟩ := spells
  exact ⟨_, _, blank, blank', rfl⟩

/-- The loaders agree on what is loaded, and on what is refused but for a document without a
family that more text follows: that is malformed to the loader that reads the whole text first.
Families are loaded from a text, unless it is null, as they are from the record around it. -/
theorem json_loaders_agree (text : String) :
    (∀ config, ofJson text = .ok config ↔ decodeJson text = .ok config) ∧
    (decodeJson text = .error .noFamily ↔
      ∃ front back : String, text = front ++ back ∧ (∃ value, Document value front.toList) ∧
        ofJson front = .error .noFamily) ∧
    (ofJson text = .error .noFamily → decodeJson text = .error .noFamily) ∧
    (ofJson text ≠ decodeJson text ↔
      ∃ front back : String, text = front ++ back ∧ ofJson front = .error .noFamily ∧
        ¬Blanks back.toList) ∧
    (ofJson text ≠ decodeJson text →
      ofJson text = .error .malformed ∧ decodeJson text = .error .noFamily) ∧
    ((∀ before after, Blanks before → Blanks after →
        text.toList ≠ before ++ ("null".toList ++ after)) →
      ∀ families, decodeFamilies text = .ok families ↔
        ofJson ("\x7b\"families\":" ++ text ++ "\x7d") = .ok { families }) := by
  have differ {front back : String} (failed : ofJson front = .error .noFamily)
      (more : ¬Blanks back.toList) : ofJson (front ++ back) = .error .malformed ∧
        decodeJson (front ++ back) = .error .noFamily := by
    obtain ⟨value, spells, -⟩ := ofJson_eq_noFamily.mp failed
    exact ⟨ofJson_of_more failed more,
      decodeJson_eq_noFamily.mpr ⟨front, back, rfl, ⟨value, spells⟩, failed⟩⟩
  refine ⟨fun config => ?_, decodeJson_eq_noFamily, fun failed => ?_, ⟨fun apart => ?_, ?_⟩,
    fun apart => ?_, fun present families => ?_⟩
  · rw [ofJson_eq_ok, decodeJson_eq, decodeLeading_eq_ok]
  · obtain ⟨value, spells, -⟩ := ofJson_eq_noFamily.mp failed
    exact decodeJson_eq_noFamily.mpr ⟨text, "", by simp, ⟨value, spells⟩, failed⟩
  · exact (decodeJson_cases text).resolve_left (Ne.symm apart)
  · rintro ⟨front, back, rfl, failed, more⟩
    obtain ⟨malformed, refused⟩ := differ failed more
    rw [malformed, refused]
    nofun
  · obtain ⟨front, back, rfl, failed, more⟩ := (decodeJson_cases text).resolve_left (Ne.symm apart)
    exact differ failed more
  · change _ ↔ ofJson (wrap text) = _
    rw [decodeFamilies_eq_ok, ofJson_wrap_eq_ok]
    constructor
    · exact .inr
    · rintro (⟨spells, -⟩ | told)
      · obtain ⟨before, after, blank, blank', same⟩ := document_null spells
        exact absurd same (present before after blank blank')
      · exact told

end PolicyAcl.Config
