import PolicyAcl.Config.OfJson
import PolicyAcl.Proofs.JsonReader

/-! Which JSON texts are configurations. What a document tells about the families is told from
its value, with the shapes that a record may have, and the text decides nothing but the value. -/
namespace PolicyAcl.Config

open Json (Value Document)

/-- The flags that a value gives: booleans for the two keys, each at most once and no others,
or at most two booleans in order. A flag that is not given is false. -/
inductive TellsFlags : Value → FamilyFlags → Prop
  | object {fields : List (String × Value)} {flags : FamilyFlags} :
      (fields.map (·.1)).Nodup →
      (∀ field ∈ fields, field.1 ∈ ["ipv4", "ipv6"] ∧ ∃ flag, field.2 = .bool flag) →
      (flags.ipv4 = true ↔ ("ipv4", .bool true) ∈ fields) →
      (flags.ipv6 = true ↔ ("ipv6", .bool true) ∈ fields) →
      TellsFlags (.object fields) flags
  | array {flags : List Bool} : flags.length ≤ 2 →
      TellsFlags (.array (flags.map .bool)) ⟨flags[0]?.getD false, flags[1]?.getD false⟩

/-- A record of one field, with the value of the field if it is given. -/
inductive HasFamilies : Value → Option Value → Prop
  | emptyObject : HasFamilies (.object []) none
  | emptyArray : HasFamilies (.array []) none
  | object (families : Value) : HasFamilies (.object [("families", families)]) (some families)
  | array (families : Value) : HasFamilies (.array [families]) (some families)

/-- What a document tells about the families: nothing, or the flags it gives. -/
inductive Tells : Value → Option FamilyFlags → Prop
  | absent {value : Value} : HasFamilies value none → Tells value none
  | null {value : Value} : HasFamilies value (some .null) → Tells value none
  | flags {value families : Value} {flags : FamilyFlags} : HasFamilies value (some families) →
      TellsFlags families flags → Tells value (some flags)

/-- The families that are enabled by what is said. -/
def Enables : Option FamilyFlags → Families → Prop
  | none, families => families = .ipv4Only
  | some flags, families => flags = ⟨families.ipv4, families.ipv6⟩

theorem fields?_eq_some {α : Type} {names : List String} {fields : List (String × α)}
    {values : List (Option α)} :
    fields? names fields = some values ↔
      (fields.map (·.1)).Nodup ∧ (∀ field ∈ fields, field.1 ∈ names) ∧
        values = names.map (fields.lookup ·) := by
  simp only [fields?, List.mem_map, forall_exists_index, and_imp, forall_apply_eq_imp_iff₂]
  split
  next known =>
    rw [Option.some.injEq, eq_comm]
    exact ⟨fun same => ⟨known.1, fun field member => known.2 field member, same⟩, fun same => same.2.2⟩
  next unknown =>
    simp only [reduceCtorEq, false_iff]
    rintro ⟨distinct, listed, -⟩
    exact unknown ⟨distinct, listed⟩

theorem mem_iff_lookup {α : Type} {fields : List (String × α)} (distinct : (fields.map (·.1)).Nodup)
    {key : String} {value : α} : (key, value) ∈ fields ↔ fields.lookup key = some value := by
  induction fields with
  | nil => simp
  | cons field fields ih =>
      obtain ⟨name, first⟩ := field
      rw [List.map_cons, List.nodup_cons] at distinct
      by_cases same : key = name
      · subst same
        have later : (key, value) ∉ fields := fun member =>
          distinct.1 (List.mem_map_of_mem (f := (·.1)) member)
        simp [later, eq_comm]
      · have other : (key == name) = false := by simpa using same
        simp [List.lookup_cons, same, other, ih distinct.2]

/-- One flag of an object with distinct keys. -/
theorem flagOfJson?_lookup {fields : List (String × Value)} (distinct : (fields.map (·.1)).Nodup)
    {key : String} {flag : Bool} :
    flagOfJson? (fields.lookup key) = some flag ↔
      (∀ value, (key, value) ∈ fields → ∃ flag, value = .bool flag) ∧
        (flag = true ↔ (key, .bool true) ∈ fields) := by
  simp only [mem_iff_lookup distinct]
  cases found : fields.lookup key with
  | none => simp [flagOfJson?, eq_comm]
  | some value =>
      cases value with
      | bool given => cases given <;> cases flag <;> simp [flagOfJson?]
      | _ => simp [flagOfJson?]

theorem flagsOfJson?_object {fields : List (String × Value)} {flags : FamilyFlags} :
    flagsOfJson? (.object fields) = some flags ↔ TellsFlags (.object fields) flags := by
  have decoded : flagsOfJson? (.object fields) = some flags ↔
      (fields.map (·.1)).Nodup ∧ (∀ field ∈ fields, field.1 ∈ [ipv4Key, ipv6Key]) ∧
        flagOfJson? (fields.lookup ipv4Key) = some flags.ipv4 ∧
        flagOfJson? (fields.lookup ipv6Key) = some flags.ipv6 := by
    obtain ⟨ipv4, ipv6⟩ := flags
    rw [flagsOfJson?, recordOfJson?]
    cases found : fields? [ipv4Key, ipv6Key] fields with
    | none =>
        simp only [reduceCtorEq, false_iff]
        rintro ⟨distinct, listed, -⟩
        rw [fields?_eq_some.mpr ⟨distinct, listed, rfl⟩] at found
        cases found
    | some values =>
        obtain ⟨distinct, listed, rfl⟩ := fields?_eq_some.mp found
        simp only [List.map_cons, List.map_nil, Option.bind_eq_bind, Option.bind_eq_some_iff,
          Option.pure_def, Option.some.injEq, FamilyFlags.mk.injEq]
        constructor
        · rintro ⟨_, first, _, second, rfl, rfl⟩
          exact ⟨distinct, listed, first, second⟩
        · rintro ⟨-, -, first, second⟩
          exact ⟨_, first, _, second, rfl, rfl⟩
  rw [decoded]
  constructor
  · rintro ⟨distinct, listed, ipv4, ipv6⟩
    rw [flagOfJson?_lookup distinct] at ipv4 ipv6
    refine .object distinct (fun field member => ⟨listed field member, ?_⟩) ipv4.2 ipv6.2
    obtain ⟨key, value⟩ := field
    have known := listed _ member
    rcases List.mem_pair.mp known with rfl | rfl
    · exact ipv4.1 value member
    · exact ipv6.1 value member
  · rintro @⟨_, _, distinct, given, ipv4, ipv6⟩
    rw [flagOfJson?_lookup distinct, flagOfJson?_lookup distinct]
    exact ⟨distinct, fun field member => (given field member).1,
      ⟨fun value member => (given _ member).2, ipv4⟩, fun value member => (given _ member).2, ipv6⟩

theorem flagsOfJson?_array {items : List Value} {flags : FamilyFlags} :
    flagsOfJson? (.array items) = some flags ↔ TellsFlags (.array items) flags := by
  constructor
  · intro decoded
    rcases items with - | ⟨first, - | ⟨second, - | ⟨third, more⟩⟩⟩
    · cases decoded
      exact @TellsFlags.array [] (by simp)
    · cases first with
      | bool ipv4 =>
          cases decoded
          exact @TellsFlags.array [ipv4] (by simp)
      | _ => cases decoded
    · cases first with
      | bool ipv4 =>
          cases second with
          | bool ipv6 =>
              cases decoded
              exact @TellsFlags.array [ipv4, ipv6] (by simp)
          | _ => cases decoded
      | _ => cases decoded
    · simp [flagsOfJson?, recordOfJson?] at decoded
  · intro said
    cases said with
    | @array given few =>
        rcases given with - | ⟨ipv4, - | ⟨ipv6, - | ⟨other, more⟩⟩⟩
        · rfl
        · rfl
        · rfl
        · simp at few

theorem flagsOfJson?_eq_some {value : Value} {flags : FamilyFlags} :
    flagsOfJson? value = some flags ↔ TellsFlags value flags := by
  cases value with
  | object fields => exact flagsOfJson?_object
  | array items => exact flagsOfJson?_array
  | _ => exact ⟨fun decoded => (nomatch decoded), fun said => (nomatch said)⟩

theorem recordOfJson?_families {value : Value} {families? : Option Value} :
    recordOfJson? [familiesKey] value = some [families?] ↔ HasFamilies value families? := by
  constructor
  · intro decoded
    cases value with
    | object fields =>
        obtain ⟨distinct, listed, same⟩ := fields?_eq_some.mp decoded
        rcases fields with - | ⟨⟨key, families⟩, - | ⟨⟨key', families'⟩, more⟩⟩
        · cases same
          exact .emptyObject
        · obtain rfl := List.mem_singleton.mp (listed _ List.mem_cons_self)
          rw [List.map_singleton, List.lookup_cons_self, List.singleton_inj] at same
          subst same
          exact .object families
        · obtain rfl := List.mem_singleton.mp (listed _ List.mem_cons_self)
          obtain rfl := List.mem_singleton.mp (listed _ (List.mem_cons_of_mem _ List.mem_cons_self))
          simp at distinct
    | array items =>
        rcases items with - | ⟨families, - | ⟨other, more⟩⟩
        · cases decoded
          exact .emptyArray
        · cases decoded
          exact .array families
        · simp [recordOfJson?] at decoded
    | _ => cases decoded
  · rintro (_ | _ | _ | _) <;> rfl

theorem documentOfJson?_eq_some {value : Value} {said : Option FamilyFlags} :
    documentOfJson? value = some said ↔ Tells value said := by
  constructor
  · intro decoded
    unfold documentOfJson? at decoded
    split at decoded
    next found =>
      cases decoded
      exact .absent (recordOfJson?_families.mp found)
    next found =>
      cases decoded
      exact .null (recordOfJson?_families.mp found)
    next families _ found =>
      obtain ⟨flags, given, rfl⟩ := Option.map_eq_some_iff.mp decoded
      exact .flags (recordOfJson?_families.mp found) (flagsOfJson?_eq_some.mp given)
    next => cases decoded
  · intro said
    cases said with
    | absent found => rw [documentOfJson?, recordOfJson?_families.mpr found]
    | null found => rw [documentOfJson?, recordOfJson?_families.mpr found]
    | @flags families _ found given =>
        have present : families ≠ .null := by
          rintro rfl
          cases given
        rw [documentOfJson?, recordOfJson?_families.mpr found]
        simp only [flagsOfJson?_eq_some.mpr given, Option.map_some]

theorem enable_eq_ok {flags : FamilyFlags} {families : Families} :
    enable flags = .ok families ↔ flags = ⟨families.ipv4, families.ipv6⟩ := by
  obtain ⟨ipv4, ipv6⟩ := flags
  obtain ⟨ipv4', ipv6', present⟩ := families
  revert present
  cases ipv4 <;> cases ipv6 <;> cases ipv4' <;> cases ipv6' <;> simp [enable, Families.ofFlags?]

/-- The families are refused exactly if no flag is set. -/
theorem enable_eq_error {flags : FamilyFlags} {error : ConfigError} :
    enable flags = .error error ↔ flags = ⟨false, false⟩ ∧ error = .noFamily := by
  obtain ⟨ipv4, ipv6⟩ := flags
  cases ipv4 <;> cases ipv6 <;> simp [enable, Families.ofFlags?, eq_comm]

theorem ofFlags_eq_ok {said : Option FamilyFlags} {families : Families} :
    ofFlags said = .ok { families } ↔ Enables said families := by
  cases said with
  | none => simp [ofFlags, Enables, eq_comm]
  | some flags =>
      rw [ofFlags, Enables, ← enable_eq_ok]
      cases enable flags <;> simp [Except.map]

theorem ofFlags_eq_error {said : Option FamilyFlags} {error : ConfigError} :
    ofFlags said = .error error ↔ said = some ⟨false, false⟩ ∧ error = .noFamily := by
  cases said with
  | none => simp [ofFlags]
  | some flags =>
      rw [ofFlags, Option.some.injEq, ← enable_eq_error]
      cases enable flags <;> simp [Except.map]

variable {text other : String} {value value' : Value}

theorem ofJson_of_document (spells : Document value text.toList) :
    ofJson text = match documentOfJson? value with
      | some said => ofFlags said
      | none => .error .malformed := by
  rw [ofJson, Json.document?_eq_some.mpr spells]
  rfl

theorem ofJson_of_no_document (none : ∀ value, ¬Document value text.toList) :
    ofJson text = .error .malformed := by
  have unread : Json.document? text.toList = .none :=
    Option.eq_none_iff_forall_ne_some.mpr fun value read => none value (Json.document?_eq_some.mp read)
  rw [ofJson, unread]
  rfl

/-- What a text tells, if it is a configuration, decides what is loaded from it. -/
theorem ofJson_of_tells {said : Option FamilyFlags} (spells : Document value text.toList)
    (tells : Tells value said) : ofJson text = ofFlags said := by
  rw [ofJson_of_document spells, documentOfJson?_eq_some.mpr tells]

theorem ofJson_cases (text : String) :
    (∃ value said, Document value text.toList ∧ Tells value said ∧ ofJson text = ofFlags said) ∨
    (∀ value said, Document value text.toList → ¬Tells value said) ∧ ofJson text = .error .malformed := by
  by_cases some : ∃ value said, Document value text.toList ∧ Tells value said
  · obtain ⟨value, said, spells, tells⟩ := some
    exact .inl ⟨value, said, spells, tells, ofJson_of_tells spells tells⟩
  · refine .inr ⟨fun value said spells tells => some ⟨value, said, spells, tells⟩, ?_⟩
    by_cases read : ∃ value, Document value text.toList
    · obtain ⟨value, spells⟩ := read
      have unsaid : documentOfJson? value = none :=
        Option.eq_none_iff_forall_ne_some.mpr fun said found =>
          some ⟨value, said, spells, documentOfJson?_eq_some.mp found⟩
      rw [ofJson_of_document spells, unsaid]
    · exact ofJson_of_no_document fun value spells => read ⟨value, spells⟩

/-! The order of fields. -/

theorem reordered_symm (same : value.Reordered value') : value'.Reordered value := by
  induction same with
  | refl value => exact .refl value
  | trans _ _ first second => exact .trans second first
  | fields perm => exact .fields perm.symm
  | field _ ih => exact .field ih
  | item _ ih => exact .item ih

/-- Nothing is reordered in a value that is neither an object nor an array. -/
theorem reordered_scalar (same : value.Reordered value') (object : ∀ fields, value ≠ .object fields)
    (array : ∀ items, value ≠ .array items) : value' = value := by
  induction same with
  | refl => rfl
  | trans _ _ first second =>
      obtain rfl := first object array
      exact second object array
  | fields => exact absurd rfl (object _)
  | field => exact absurd rfl (object _)
  | item => exact absurd rfl (array _)

theorem reordered_bool {flag : Bool} (same : (Value.bool flag).Reordered value') :
    value' = .bool flag :=
  reordered_scalar same (fun _ => Value.noConfusion) fun _ => Value.noConfusion

theorem reordered_flags {flags : FamilyFlags} (same : value.Reordered value')
    (tells : TellsFlags value flags) : TellsFlags value' flags := by
  induction same generalizing flags with
  | refl => exact tells
  | trans _ _ first second => exact second (first tells)
  | fields perm =>
      cases tells with
      | object distinct given ipv4 ipv6 =>
          exact .object ((perm.map _).nodup_iff.mp distinct)
            (fun field member => given field (perm.mem_iff.mpr member))
            (ipv4.trans perm.mem_iff) (ipv6.trans perm.mem_iff)
  | @field before after name value value' same _ =>
      have bool : ∃ flag, value = .bool flag := by
        cases tells with
        | object _ given => exact (given (name, value) (by simp)).2
      obtain ⟨flag, rfl⟩ := bool
      rwa [reordered_bool same]
  | @item before after value value' same _ =>
      have bool : ∃ flag, value = .bool flag := by
        generalize listed : before ++ value :: after = items at tells
        cases tells with
        | array =>
            have member : value ∈ before ++ value :: after := by simp
            rw [listed] at member
            obtain ⟨flag, -, rfl⟩ := List.mem_map.mp member
            exact ⟨flag, rfl⟩
      obtain ⟨flag, rfl⟩ := bool
      rwa [reordered_bool same]

theorem hasFamilies_object {fields : List (String × Value)} {families? : Option Value} :
    HasFamilies (.object fields) families? ↔
      fields = families?.toList.map ("families", ·) := by
  constructor
  · rintro (_ | _) <;> rfl
  · rintro rfl
    cases families? with
    | none => exact .emptyObject
    | some families => exact .object families

theorem hasFamilies_array {items : List Value} {families? : Option Value} :
    HasFamilies (.array items) families? ↔ items = families?.toList := by
  constructor
  · rintro (_ | _) <;> rfl
  · rintro rfl
    cases families? with
    | none => exact .emptyArray
    | some families => exact .array families

/-- A record stays one, and the value of its field is reordered at most. -/
theorem reordered_families {families? : Option Value} (same : value.Reordered value')
    (has : HasFamilies value families?) :
    ∃ families?', HasFamilies value' families?' ∧ Option.Rel Value.Reordered families? families?' := by
  have kept : Option.Rel Value.Reordered families? families? := by
    cases families? <;> constructor
    exact .refl _
  induction same generalizing families? with
  | refl => exact ⟨families?, has, kept⟩
  | trans _ _ first second =>
      obtain ⟨middle, has', rel⟩ := first has kept
      obtain ⟨last, has'', rel'⟩ := second has' (by cases middle <;> constructor; exact .refl _)
      refine ⟨last, has'', ?_⟩
      cases rel with
      | none => exact rel'
      | some before =>
          cases rel' with
          | some after => exact .some (before.trans after)
  | fields perm =>
      rw [hasFamilies_object] at has
      subst has
      refine ⟨families?, hasFamilies_object.mpr ?_, kept⟩
      cases families? with
      | none => exact perm.symm.eq_nil
      | some families => exact perm.symm.eq_singleton
  | @field before after name value value' same _ =>
      rw [hasFamilies_object] at has
      cases families? with
      | none => simp at has
      | some families =>
          rcases before with - | ⟨other, before⟩
          · obtain ⟨rfl, rfl, rfl⟩ : name = "families" ∧ value = families ∧ after = [] := by
              simpa [and_assoc] using has
            exact ⟨some value', .object value', .some same⟩
          · simp at has
  | @item before after value value' same _ =>
      rw [hasFamilies_array] at has
      cases families? with
      | none => simp at has
      | some families =>
          rcases before with - | ⟨other, before⟩
          · obtain ⟨rfl, rfl⟩ : value = families ∧ after = [] := by simpa using has
            exact ⟨some value', .array value', .some same⟩
          · simp at has

theorem reordered_tells {told : Option FamilyFlags} (same : value.Reordered value')
    (tells : Tells value told) : Tells value' told := by
  cases tells with
  | absent has =>
      obtain ⟨_, has', ⟨⟩⟩ := reordered_families same has
      exact .absent has'
  | null has =>
      obtain ⟨_, has', @⟨_, families, within⟩⟩ := reordered_families same has
      rw [reordered_scalar within (fun _ => Value.noConfusion) fun _ => Value.noConfusion] at has'
      exact .null has'
  | flags has given =>
      obtain ⟨_, has', @⟨_, families, within⟩⟩ := reordered_families same has
      exact .flags has' (reordered_flags within given)

theorem ofJson_reordered (spells : Document value text.toList) (spells' : Document value' other.toList)
    (same : value.Reordered value') : ofJson other = ofJson text := by
  have told : documentOfJson? value' = documentOfJson? value := by
    refine Option.ext fun told => ?_
    rw [documentOfJson?_eq_some, documentOfJson?_eq_some]
    exact ⟨reordered_tells (reordered_symm same), reordered_tells same⟩
  rw [ofJson_of_document spells, ofJson_of_document spells', told]

/-- The texts that are loaded are the documents that are records with a flag set. With no
flag set the families are refused, and any other text is malformed. Blanks, escapes and the
order of fields make no difference. -/
theorem ofJson_accepts_grammar (text : String) :
    (∀ families, ofJson text = .ok { families } ↔
      ∃ value told, Document value text.toList ∧ Tells value told ∧ Enables told families) ∧
    (ofJson text = .error .noFamily ↔
      ∃ value, Document value text.toList ∧ Tells value (some ⟨false, false⟩)) ∧
    (ofJson text = .error .malformed ↔
      ∀ value told, Document value text.toList → ¬Tells value told) ∧
    (∀ error, ofJson text = .error error → error = .noFamily ∨ error = .malformed) ∧
    (∀ config, ofJson text = .ok config → config.families.enabled ≠ []) ∧
    ∀ (other : String) (value value' : Value), Document value text.toList →
      Document value' other.toList → value.Reordered value' → ofJson other = ofJson text := by
  have refused {value : Value} {told : Option FamilyFlags} (spells : Document value text.toList)
      (tells : Tells value told) {error : ConfigError} :
      ofJson text = .error error ↔ told = some ⟨false, false⟩ ∧ error = .noFamily := by
    rw [ofJson_of_tells spells tells, ofFlags_eq_error]
  refine ⟨fun families => ⟨fun loaded => ?_, ?_⟩, ⟨fun failed => ?_, ?_⟩, ⟨fun failed => ?_, ?_⟩,
    fun error failed => ?_, fun config _ => config.families.enabled_ne_nil, ?_⟩
  · rcases ofJson_cases text with ⟨value, told, spells, tells, same⟩ | ⟨-, same⟩
    · exact ⟨value, told, spells, tells, ofFlags_eq_ok.mp (same ▸ loaded)⟩
    · rw [same] at loaded
      cases loaded
  · rintro ⟨value, told, spells, tells, enables⟩
    rw [ofJson_of_tells spells tells, ofFlags_eq_ok.mpr enables]
  · rcases ofJson_cases text with ⟨value, told, spells, tells, -⟩ | ⟨-, same⟩
    · obtain ⟨rfl, -⟩ := (refused spells tells).mp failed
      exact ⟨value, spells, tells⟩
    · rw [same] at failed
      cases failed
  · rintro ⟨value, spells, tells⟩
    exact (refused spells tells).mpr ⟨rfl, rfl⟩
  · intro value told spells tells
    obtain ⟨-, ⟨⟩⟩ := (refused spells tells).mp failed
  · intro untold
    rcases ofJson_cases text with ⟨value, told, spells, tells, -⟩ | ⟨-, same⟩
    · exact absurd tells (untold value told spells)
    · exact same
  · rcases ofJson_cases text with ⟨value, told, spells, tells, -⟩ | ⟨-, same⟩
    · exact .inl ((refused spells tells).mp failed).2
    · rw [same] at failed
      exact .inr (Except.error.inj failed).symm
  · exact fun other value value' spells spells' same => ofJson_reordered spells spells' same

end PolicyAcl.Config
