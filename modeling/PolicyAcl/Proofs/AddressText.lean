import Mathlib.Data.List.TakeWhile
import PolicyAcl.Address.Text
import PolicyAcl.Proofs.Digits

/-! The texts of addresses. What is written is read back, and a text that is read has a
colon in it just if it spells an IPv6 address. -/
namespace PolicyAcl

theorem mem_part_of_mem_intercalate {letter mark : Char} (other : letter ≠ mark)
    {parts : List (List Char)} (member : letter ∈ [mark].intercalate parts) :
    ∃ part ∈ parts, letter ∈ part := by
  induction parts with
  | nil => simp at member
  | cons part parts ih =>
      cases parts with
      | nil => simpa using member
      | cons next parts =>
          rw [List.intercalate_cons_cons, List.mem_append, List.mem_append, List.mem_singleton] at member
          rcases member with (first | same) | later
          · exact ⟨part, List.mem_cons_self, first⟩
          · exact absurd same other
          · obtain ⟨found, listed, inside⟩ := ih later
            exact ⟨found, List.mem_cons_of_mem part listed, inside⟩

/-- A letter of a text that is cut at another letter is in one of the parts. -/
theorem mem_part_of_mem {letter mark : Char} (other : letter ≠ mark) {text : List Char}
    (member : letter ∈ text) : ∃ part ∈ text.splitOn mark, letter ∈ part := by
  have joined : [mark].intercalate (text.splitOn mark) = text := List.intercalate_splitOn mark
  rw [← joined] at member
  exact mem_part_of_mem_intercalate other member

theorem length_intercalate_le (mark : Char) {size : Nat} {parts : List (List Char)}
    (short : ∀ part ∈ parts, part.length ≤ size) :
    ([mark].intercalate parts).length ≤ (size + 1) * parts.length - 1 := by
  induction parts with
  | nil => simp
  | cons part parts ih =>
      obtain ⟨first, rest⟩ := List.forall_mem_cons.mp short
      cases parts with
      | nil => simpa using first
      | cons next parts =>
          have later := ih rest
          rw [List.intercalate_cons_cons]
          simp only [List.length_append, List.length_cons, List.length_nil, Nat.mul_succ] at later ⊢
          omega

namespace Octets

theorem readOctet?_toDigits (octet : UInt8) :
    readOctet? (Nat.toDigits 10 octet.toNat) = some octet := by
  have all : ∀ n < 256, readOctet? (Nat.toDigits 10 n) = some (UInt8.ofNat n) := by decide +kernel
  rw [all octet.toNat octet.toNat_lt, UInt8.ofNat_toNat]

theorem readAll?_toDigits (octets : List UInt8) :
    readAll? (octets.map fun octet => Nat.toDigits 10 octet.toNat) = some octets := by
  induction octets with
  | nil => rfl
  | cons octet octets ih =>
      rw [List.map_cons, readAll?, readOctet?_toDigits, ih]
      rfl

theorem read?_write (o : Octets) : read? o.write = some o := by
  have undotted : ∀ part ∈ o.toList.map fun octet => Nat.toDigits 10 octet.toNat, '.' ∉ part := by
    intro part member
    obtain ⟨octet, -, rfl⟩ := List.mem_map.mp member
    exact not_mem_toDigits (by decide) (by decide) (by decide) octet.toNat
  rw [read?, write, List.splitOn_intercalate '.' undotted (by simp [toList]), readAll?_toDigits]
  rfl

theorem readOctet?_digits {part : List Char} {octet : UInt8} (read : readOctet? part = some octet) :
    ∃ n, digitsValue? 10 0 part = some n := by
  unfold readOctet? at read
  split at read
  · cases read
  · split at read
    · cases read
    · split at read
      next n value => exact ⟨n, value⟩
      next => cases read

theorem readAll?_digits {parts : List (List Char)} {octets : List UInt8}
    (read : readAll? parts = some octets) : ∀ part ∈ parts, ∃ n, digitsValue? 10 0 part = some n := by
  induction parts generalizing octets with
  | nil => simp
  | cons part parts ih =>
      rw [readAll?] at read
      obtain ⟨octet, first, read⟩ := Option.bind_eq_some_iff.mp read
      obtain ⟨rest, later, -⟩ := Option.bind_eq_some_iff.mp read
      exact List.forall_mem_cons.mpr ⟨readOctet?_digits first, ih later⟩

/-- A text that is read as a dotted address has digits and dots in it and nothing else. -/
theorem not_mem_of_read? {letter : Char} (strange : digitValue? 10 letter = none)
    (other : letter ≠ '.') {text : List Char} {o : Octets} (read : read? text = some o) :
    letter ∉ text := by
  intro member
  obtain ⟨octets, parts, -⟩ := Option.bind_eq_some_iff.mp read
  obtain ⟨part, listed, inside⟩ := mem_part_of_mem other member
  obtain ⟨n, value⟩ := readAll?_digits parts part listed
  exact not_mem_of_digitsValue? strange value inside

theorem colon_not_mem_write (o : Octets) : ':' ∉ o.write :=
  not_mem_of_read? (by decide) (by decide) o.read?_write

theorem dot_mem_write (o : Octets) : '.' ∈ o.write := by
  simp [write, toList, List.intercalate_cons_cons]

theorem length_write_le (o : Octets) : o.write.length ≤ 15 := by
  have short : ∀ part ∈ o.toList.map fun octet => Nat.toDigits 10 octet.toNat, part.length ≤ 3 := by
    intro part member
    obtain ⟨octet, -, rfl⟩ := List.mem_map.mp member
    have small := octet.toNat_lt
    exact (Nat.length_toDigits_le_iff (by decide) (by decide)).mpr (by omega)
  exact length_intercalate_le '.' short

end Octets

namespace Groups

theorem readGroup?_toDigits (group : UInt16) :
    readGroup? (Nat.toDigits 16 group.toNat) = some group := by
  have short : (Nat.toDigits 16 group.toNat).length ≤ 4 :=
    (Nat.length_toDigits_le_iff (by decide) (by decide)).mpr group.toNat_lt
  have some : (Nat.toDigits 16 group.toNat).length ≠ 0 := by simp
  rw [readGroup?, if_neg (by omega), digitsValue?_toDigits (by decide) (by decide), Option.map_some,
    UInt16.ofNat_toNat]

theorem readParts?_toDigits (dotted : Bool) (groups : List UInt16) :
    readParts? dotted (groups.map fun group => Nat.toDigits 16 group.toNat) = some groups := by
  induction groups with
  | nil => rfl
  | cons group groups ih =>
      cases groups with
      | nil =>
          have undotted : '.' ∉ Nat.toDigits 16 group.toNat :=
            not_mem_toDigits (by decide) (by decide) (by decide) group.toNat
          rw [List.map_cons, List.map_nil, readParts?, if_neg fun both => undotted both.2,
            readGroup?_toDigits]
          rfl
      | cons next groups =>
          rw [List.map_cons] at ih
          rw [List.map_cons, List.map_cons, readParts?, readGroup?_toDigits, ih]
          · rfl
          · simp

theorem writeParts_cons_cons (group next : UInt16) (groups : List UInt16) :
    writeParts (group :: next :: groups) =
      Nat.toDigits 16 group.toNat ++ ':' :: writeParts (next :: groups) := by
  simp [writeParts, List.intercalate_cons_cons]

theorem colon_not_mem_group (group : UInt16) : ':' ∉ Nat.toDigits 16 group.toNat :=
  not_mem_toDigits (by decide) (by decide) (by decide) group.toNat

/-- Groups are written with a digit in front. -/
theorem writeParts_head (group : UInt16) (groups : List UInt16) :
    ∃ letter text, writeParts (group :: groups) = letter :: text ∧ letter ≠ ':' := by
  have some : Nat.toDigits 16 group.toNat ≠ [] := Nat.toDigits_ne_nil
  obtain ⟨letter, digits, same⟩ := List.exists_cons_of_ne_nil some
  have digit : letter ≠ ':' := by
    rintro rfl
    exact colon_not_mem_group group (same ▸ List.mem_cons_self)
  cases groups with
  | nil => exact ⟨letter, digits, by simp [writeParts, same], digit⟩
  | cons next groups => exact ⟨letter, _, by rw [writeParts_cons_cons, same, List.cons_append], digit⟩

theorem readSide?_writeParts (dotted : Bool) (groups : List UInt16) :
    readSide? dotted (writeParts groups) = some groups := by
  cases groups with
  | nil => rfl
  | cons group groups =>
      obtain ⟨letter, text, same, -⟩ := writeParts_head group groups
      have apart : ∀ part ∈ (group :: groups).map fun group => Nat.toDigits 16 group.toNat,
          ':' ∉ part := by
        intro part member
        obtain ⟨group, -, rfl⟩ := List.mem_map.mp member
        exact colon_not_mem_group group
      rw [readSide?, if_neg (by simp [same]), writeParts,
        List.splitOn_intercalate ':' apart (by simp), readParts?_toDigits]

theorem cutAtGap_append {part : List Char} (plain : ':' ∉ part) (text : List Char) :
    cutAtGap (part ++ text) = (cutAtGap text).map fun cut => (part ++ cut.1, cut.2) := by
  induction part with
  | nil => simp
  | cons letter part ih =>
      rw [List.mem_cons, not_or] at plain
      rw [List.cons_append, cutAtGap, if_neg fun gap => plain.1 gap.1.symm, ih plain.2, Option.map_map]
      rfl

/-- There is no gap in written groups, so the text is cut behind them if at all. -/
theorem cutAtGap_writeParts (groups : List UInt16) (text : List Char) :
    cutAtGap (writeParts groups ++ text) =
      (cutAtGap text).map fun cut => (writeParts groups ++ cut.1, cut.2) := by
  induction groups with
  | nil => simp [writeParts]
  | cons group groups ih =>
      cases groups with
      | nil =>
          rw [writeParts, List.map_singleton, List.intercalate_singleton]
          exact cutAtGap_append (colon_not_mem_group group) text
      | cons next groups =>
          -- A colon between two groups is followed by a digit.
          obtain ⟨letter, rest, same, digit⟩ := writeParts_head next groups
          have single : ¬(':' = ':' ∧ (writeParts (next :: groups) ++ text).head? = some ':') := by
            simpa [same] using digit
          rw [writeParts_cons_cons, List.append_assoc, cutAtGap_append (colon_not_mem_group group),
            List.cons_append, cutAtGap, if_neg single, ih, Option.map_map, Option.map_map]
          simp [Function.comp_def]

theorem cutAtGap_gap (front : List UInt16) (text : List Char) :
    cutAtGap (writeParts front ++ [':', ':'] ++ text) = some (writeParts front, text) := by
  rw [List.append_assoc, cutAtGap_writeParts]
  simp [cutAtGap]

theorem takeWhile_zero (groups : List UInt16) :
    groups.takeWhile (· = 0) = List.replicate (groups.takeWhile (· = 0)).length 0 := by
  refine List.eq_replicate_of_mem fun group member => ?_
  simpa using List.mem_takeWhile_imp member

/-- The longest run holds zeros only. -/
theorem zeroRun_split (groups : List UInt16) :
    groups = groups.take (zeroRun groups).1 ++ List.replicate (zeroRun groups).2 0 ++
      groups.drop ((zeroRun groups).1 + (zeroRun groups).2) := by
  induction groups with
  | nil => rfl
  | cons group rest ih =>
      have unfolded : zeroRun (group :: rest) =
          if (zeroRun rest).2 ≤ ((group :: rest).takeWhile (· = 0)).length then
            (0, ((group :: rest).takeWhile (· = 0)).length)
          else ((zeroRun rest).1 + 1, (zeroRun rest).2) := rfl
      rw [unfolded]
      split
      next =>
        rw [List.take_zero, List.nil_append, Nat.zero_add, ← takeWhile_zero]
        exact (List.prefix_iff_eq_append.mp (List.takeWhile_prefix _)).symm
      next =>
        rw [List.take_succ_cons, Nat.add_right_comm, List.drop_succ_cons, List.cons_append,
          List.cons_append, ← ih]

theorem ofList?_toList (g : Groups) : ofList? g.toList = some g := rfl

/-- A group is what its two octets stand for. -/
theorem joined_octets (group : UInt16) :
    UInt16.ofNat ((UInt8.ofNat (group.toNat / 256)).toNat * 256 +
      (UInt8.ofNat (group.toNat % 256)).toNat) = group := by
  have small := group.toNat_lt
  have high : (UInt8.ofNat (group.toNat / 256)).toNat = group.toNat / 256 := by
    simp only [UInt8.toNat_ofNat']
    omega
  have low : (UInt8.ofNat (group.toNat % 256)).toNat = group.toNat % 256 := by
    simp only [UInt8.toNat_ofNat']
    omega
  rw [high, low, Nat.div_add_mod', UInt16.ofNat_toNat]

theorem mapped?_eq_some {g : Groups} {octets : Octets} (mapped : g.mapped? = some octets) :
    List.replicate 5 0 ++ 0xffff :: octets.groups = g.toList := by
  unfold mapped? at mapped
  split at mapped
  next zeros =>
    cases mapped
    obtain ⟨a, b, c, d, e, f, x, y⟩ := g
    obtain ⟨rfl, rfl, rfl, rfl, rfl, rfl⟩ : a = 0 ∧ b = 0 ∧ c = 0 ∧ d = 0 ∧ e = 0 ∧ f = 0xffff := by
      simpa [toList] using zeros
    simp only [Octets.groups, joined_octets]
    rfl
  next => cases mapped

theorem readSide?_mapped (octets : Octets) :
    readSide? true (['f', 'f', 'f', 'f'] ++ ':' :: octets.write) =
      some (0xffff :: octets.groups) := by
  have first : readGroup? ['f', 'f', 'f', 'f'] = some 0xffff := by decide
  rw [readSide?, if_neg (by simp), List.splitOn_append_cons_self_of_not_mem (by decide),
    List.splitOn_eq_singleton octets.colon_not_mem_write, readParts?, first, readParts?,
    if_pos ⟨rfl, octets.dot_mem_write⟩, octets.read?_write]
  · rfl
  · simp

/-- Written groups are read back, with any run of zeros among them left out. -/
theorem read?_gap {g : Groups} {front back : List UInt16} {zeros : Nat} (long : 0 < zeros)
    (whole : front ++ List.replicate zeros 0 ++ back = g.toList) :
    read? (writeParts front ++ [':', ':'] ++ writeParts back) = some g := by
  have lengths : front.length + zeros + back.length = 8 := by
    simpa [toList, Nat.add_assoc] using congrArg List.length whole
  have gap : 8 - front.length - back.length = zeros := by omega
  have short : front.length + back.length < 8 := by omega
  rw [read?, cutAtGap_gap]
  simp only [readSide?_writeParts, Option.bind_eq_bind, Option.bind_some, if_pos short, gap, whole]
  rfl

theorem read?_write (g : Groups) : read? g.write = some g := by
  cases mapped : g.mapped? with
  | some octets =>
      have written : g.write =
          writeParts [] ++ [':', ':'] ++ (['f', 'f', 'f', 'f'] ++ ':' :: octets.write) := by
        rw [write, mapped]
        rfl
      rw [read?, written, cutAtGap_gap]
      simp only [readSide?_writeParts, readSide?_mapped]
      exact congrArg ofList? (mapped?_eq_some mapped)
  | none =>
      rw [write, mapped]
      simp only
      split
      next long => exact read?_gap (by omega) (zeroRun_split g.toList).symm
      next =>
        have uncut : cutAtGap (writeParts g.toList) = none := by
          have cut := cutAtGap_writeParts g.toList []
          rwa [List.append_nil] at cut
        rw [read?, uncut]
        simp only [readSide?_writeParts, Option.bind_some]
        rfl

theorem readParts?_length {dotted : Bool} {part : List Char} {groups : List UInt16}
    (read : readParts? dotted [part] = some groups) : groups.length ≤ 2 := by
  rw [readParts?] at read
  split at read
  · obtain ⟨octets, -, rfl⟩ := Option.map_eq_some_iff.mp read
    simp [Octets.groups]
  · obtain ⟨group, -, rfl⟩ := Option.map_eq_some_iff.mp read
    simp

/-- Without a colon there are two groups at most. -/
theorem colon_mem_of_read? {text : List Char} {g : Groups} (read : read? text = some g) :
    ':' ∈ text := by
  by_contra plain
  have uncut : cutAtGap text = none := by
    have cut := cutAtGap_append plain []
    rwa [List.append_nil] at cut
  rw [read?, uncut] at read
  obtain ⟨groups, side, eight⟩ := Option.bind_eq_some_iff.mp read
  have few : groups.length ≤ 2 := by
    rw [readSide?] at side
    split at side
    · cases side
      simp
    · rw [List.splitOn_eq_singleton plain] at side
      exact readParts?_length side
  have all : groups.length = 8 := by
    unfold ofList? at eight
    split at eight
    next => rfl
    next => cases eight
  omega

theorem length_writeParts_le (groups : List UInt16) :
    (writeParts groups).length ≤ 5 * groups.length - 1 := by
  have short : ∀ part ∈ groups.map fun group => Nat.toDigits 16 group.toNat, part.length ≤ 4 := by
    intro part member
    obtain ⟨group, -, rfl⟩ := List.mem_map.mp member
    exact (Nat.length_toDigits_le_iff (by decide) (by decide)).mpr group.toNat_lt
  simpa [writeParts] using length_intercalate_le ':' short

/-- Eight groups of four digits make the longest text. -/
theorem length_write_le (g : Groups) : g.write.length ≤ 39 := by
  have eight : g.toList.length = 8 := rfl
  rw [write]
  split
  next octets _ =>
    have dotted := octets.length_write_le
    simp only [String.reduceToList, List.length_append, List.length_cons, List.length_nil]
    omega
  next =>
    have whole := length_writeParts_le g.toList
    simp only
    split
    next long =>
      have front := length_writeParts_le (g.toList.take (zeroRun g.toList).1)
      have back := length_writeParts_le (g.toList.drop ((zeroRun g.toList).1 + (zeroRun g.toList).2))
      have lengths := congrArg List.length (zeroRun_split g.toList)
      simp only [List.length_append, List.length_replicate, List.length_cons, List.length_nil]
        at lengths ⊢
      omega
    next => omega

theorem not_mem_writeParts {letter : Char} (strange : digitValue? 16 letter = none)
    (colon : letter ≠ ':') (groups : List UInt16) : letter ∉ writeParts groups := by
  intro member
  obtain ⟨part, listed, inside⟩ := mem_part_of_mem_intercalate colon member
  obtain ⟨group, -, rfl⟩ := List.mem_map.mp listed
  exact not_mem_toDigits strange (by decide) (by decide) group.toNat inside

end Groups

namespace Address

theorem length_write_le (address : Address) : address.write.length ≤ 39 := by
  cases address with
  | v4 o => exact o.length_write_le.trans (by decide)
  | v6 g => exact g.length_write_le

/-- A text has digits in it and what the digits are told apart by. -/
theorem not_mem_write {letter : Char} (decimal : digitValue? 10 letter = none)
    (hexadecimal : digitValue? 16 letter = none) (colon : letter ≠ ':') (dot : letter ≠ '.')
    (address : Address) : letter ∉ address.write := by
  have dotted (o : Octets) : letter ∉ o.write := Octets.not_mem_of_read? decimal dot o.read?_write
  cases address with
  | v4 o => exact dotted o
  | v6 g =>
      have parts := Groups.not_mem_writeParts hexadecimal colon
      rw [write, Groups.write]
      split
      next octets _ =>
        have digit : letter ≠ 'f' := by
          rintro rfl
          cases hexadecimal
        simp [dotted octets, digit, colon]
      next =>
        simp only
        split <;> simp [parts, colon]

theorem read?_write (address : Address) : read? address.write = some address := by
  cases address with
  | v4 o => simp only [read?, write, o.read?_write]
  | v6 g =>
      have read := g.read?_write
      rw [read?, write]
      split
      next o octets =>
        -- Dotted addresses are tried first, but have no colon.
        exact absurd (Groups.colon_mem_of_read? read)
          (Octets.not_mem_of_read? (by decide) (by decide) octets)
      next => rw [read, Option.map_some]

theorem ofText?_text (address : Address) : ofText? address.text = some address := by
  rw [ofText?, text, String.toList_ofList, read?_write]

/-- The family of an address can be told from any of its spellings. -/
theorem colon_mem_iff {text : String} {address : Address} (spelled : ofText? text = some address) :
    ':' ∈ text.toList ↔ address.family = .v6 := by
  rw [ofText?, read?] at spelled
  split at spelled
  next o octets =>
    cases spelled
    exact iff_of_false (Octets.not_mem_of_read? (by decide) (by decide) octets) (by simp [family])
  next =>
    obtain ⟨g, read, rfl⟩ := Option.map_eq_some_iff.mp spelled
    exact iff_of_true (Groups.colon_mem_of_read? read) rfl

end Address

end PolicyAcl
