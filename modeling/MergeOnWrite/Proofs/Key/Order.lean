/-
The order in which the bitmaps of a tablet are listed.

The store lists its keys by their bytes. Numbers within a key are filled up
with zeros, so the bytes of two numerals compare as the numbers do, as long as
none is below zero. The name of a rowset has no width. What stands behind it
is a slash, and a name may have characters that come before the slash: a
space cannot be among them, but a hyphen or a full stop can. So a name that
goes on with such a character behind another name is listed before that name,
though it is the greater of the two; all other names are listed in their order.

# Main statements

- `compare_append_slash`: names with a slash behind them.
- `compare_padded`: numerals of one width compare as their numbers do.
- `compare_stored`: which of two entries of a tablet the store lists first.
- `listed_by_name_and_slash`: this, and what a scan of a tablet lists.
- `hyphen_listed_first`: the entries of a rowset are listed before those of
  another whose name is less.
-/
import MergeOnWrite.Proofs.DeleteBitmap.Lookup
import MergeOnWrite.Proofs.Key.Entry
import MergeOnWrite.Proofs.Store.Snapshot

namespace MergeOnWrite

-- ================================================== bytes

namespace Bytes

/-- The byte of the slash. -/
def slash : UInt8 := 47

variable {a b x y : Bytes}

/-- What stands in front of both is immaterial. -/
theorem compare_append_left (stem : Bytes) :
    compare (stem ++ a) (stem ++ b) = compare a b := by
  induction stem with
  | nil => rfl
  | cons c rest ih =>
      rw [List.cons_append, List.cons_append, List.compare_cons_cons,
        Std.ReflOrd.compare_self, ih]
      rfl

/-- Of byte strings of one length, what stands behind them decides only where
they are the same. -/
theorem compare_append : ∀ {a b : Bytes}, a.length = b.length →
    compare (a ++ x) (b ++ y) = (compare a b).then (compare x y) := by
  intro a
  induction a with
  | nil =>
      intro b hlength
      obtain rfl := List.eq_nil_of_length_eq_zero hlength.symm
      rfl
  | cons c rest ih =>
      intro b hlength
      cases b with
      | nil => cases hlength
      | cons d back =>
          rw [List.cons_append, List.cons_append, List.compare_cons_cons,
            List.compare_cons_cons, ih (Nat.succ.inj hlength),
            Ordering.then_assoc]

/-- True of two byte strings of which one goes on behind the other, with a
byte below that of the slash. -/
def inverts : Bytes → Bytes → Bool
  | [], [] => false
  | [], c :: _ => c < slash
  | c :: _, [] => c < slash
  | c :: rest, d :: back => c = d && inverts rest back

theorem inverts_iff : ∀ {a b : Bytes}, inverts a b = true
    ↔ ∃ c rest, c < slash ∧ (b = a ++ c :: rest ∨ a = b ++ c :: rest) := by
  intro a
  induction a with
  | nil =>
      intro b
      cases b with
      | nil => simp [inverts]
      | cons c rest => simp [inverts]
  | cons c rest ih =>
      intro b
      cases b with
      | nil => simp [inverts]
      | cons d back =>
          simp only [inverts, Bool.and_eq_true, decide_eq_true_eq, ih,
            List.cons_append, List.cons.injEq]
          constructor
          · intro ⟨hcd, e, tail, he, h⟩
            exact ⟨e, tail, he, h.imp (⟨hcd.symm, ·⟩) (⟨hcd, ·⟩)⟩
          · intro ⟨e, tail, he, h⟩
            rcases h with ⟨hcd, h⟩ | ⟨hcd, h⟩
            · exact ⟨hcd.symm, e, tail, he, .inl h⟩
            · exact ⟨hcd, e, tail, he, .inr h⟩

/-- With a slash behind them, names without one compare as they do, except for
those of which one goes on behind the other with a byte below the slash: these
compare the other way round. What stands behind the slashes decides only where
the names are the same. -/
theorem compare_append_slash : ∀ {a b : Bytes}, slash ∉ a → slash ∉ b →
    compare (a ++ slash :: x) (b ++ slash :: y)
      = (if inverts a b then (compare a b).swap else compare a b).then
        (compare x y) := by
  have hne : ∀ {c : UInt8} {rest : Bytes}, slash ∉ c :: rest →
      c < slash ∨ slash < c := by
    intro c rest h
    apply UInt8.lt_or_lt_of_ne
    intro heq
    apply h
    rw [heq]
    exact List.mem_cons_self
  intro a
  induction a with
  | nil =>
      intro b _ hb
      cases b with
      | nil =>
          rw [List.nil_append, List.nil_append, List.compare_cons_cons,
            Std.ReflOrd.compare_self]
          rfl
      | cons d back =>
          rw [List.nil_append, List.cons_append, List.compare_cons_cons]
          rcases hne hb with h | h
          · rw [Std.compare_eq_gt.2 h, inverts, decide_eq_true h]
            rfl
          · rw [Std.compare_eq_lt.2 h, inverts,
              decide_eq_false (UInt8.lt_asymm h)]
            rfl
  | cons c rest ih =>
      intro b ha hb
      cases b with
      | nil =>
          rw [List.nil_append, List.cons_append, List.compare_cons_cons]
          rcases hne ha with h | h
          · rw [Std.compare_eq_lt.2 h, inverts, decide_eq_true h]
            rfl
          · rw [Std.compare_eq_gt.2 h, inverts,
              decide_eq_false (UInt8.lt_asymm h)]
            rfl
      | cons d back =>
          rw [List.mem_cons, not_or] at ha hb
          rw [List.cons_append, List.cons_append, List.compare_cons_cons,
            List.compare_cons_cons, ih ha.2 hb.2, inverts]
          by_cases hcd : c = d
          · subst hcd
            rw [Std.ReflOrd.compare_self, decide_eq_true rfl, Bool.true_and]
            rfl
          · rw [decide_eq_false hcd, Bool.false_and,
              if_neg Bool.false_ne_true, Ordering.then_assoc]
            -- the first bytes decide, so nothing behind them matters
            cases hdecide : compare c d with
            | eq => exact absurd (Std.LawfulEqOrd.eq_of_compare hdecide) hcd
            | lt => rfl
            | gt => rfl

-- ================================================== texts

theorem ofText_eq_flatMap (text : String) :
    ofText text = text.toList.flatMap String.utf8EncodeChar := by
  unfold ofText
  rw [String.toUTF8_eq_toByteArray, ← String.utf8Encode_toList,
    List.utf8Encode, List.data_toByteArray]

/-- Only the slash is encoded with its byte. -/
theorem eq_slash_of_mem_encode {c : Char}
    (h : slash ∈ String.utf8EncodeChar c) : c = '/' := by
  have hslash : ∀ n, slash = UInt8.ofNat n ↔ 47 = n % 256 :=
    fun n => UInt8.toNat_inj.symm
  unfold String.utf8EncodeChar at h
  simp only at h
  split at h
  · rw [List.mem_singleton, hslash] at h
    apply Char.ext
    apply UInt32.toNat_inj.1
    show c.val.toNat = 47
    omega
  -- every byte of a longer encoding is above that of the slash
  · exfalso
    split at h
    · simp only [List.mem_cons, List.not_mem_nil, or_false, hslash] at h
      omega
    · split at h
      · simp only [List.mem_cons, List.not_mem_nil, or_false, hslash] at h
        omega
      · simp only [List.mem_cons, List.not_mem_nil, or_false, hslash] at h
        omega

theorem slash_notMem_ofText {text : String} (h : '/' ∉ text.toList) :
    slash ∉ ofText text := by
  rw [ofText_eq_flatMap, List.mem_flatMap]
  intro ⟨c, hc, hmem⟩
  apply h
  rw [← eq_slash_of_mem_encode hmem]
  exact hc

end Bytes

-- ================================================== numerals

/-- Two pairs compare in the same way if the same sides of them are below. -/
theorem compare_congr {α β : Type} [Ord α] [LE α] [LT α] [Std.LawfulOrderOrd α]
    [Std.LawfulOrderLT α] [Ord β] [LE β] [LT β] [Std.LawfulOrderOrd β]
    [Std.LawfulOrderLT β] {a b : α} {x y : β} (hlt : a < b ↔ x < y)
    (hgt : b < a ↔ y < x) : compare a b = compare x y := by
  cases h : compare x y with
  | lt => exact Std.compare_eq_lt.2 (hlt.2 (Std.compare_eq_lt.1 h))
  | gt => exact Std.compare_eq_gt.2 (hgt.2 (Std.compare_eq_gt.1 h))
  | eq =>
      cases h' : compare a b with
      | lt =>
          rw [Std.compare_eq_lt.2 (hlt.1 (Std.compare_eq_lt.1 h'))] at h
          cases h
      | eq => rfl
      | gt =>
          rw [Std.compare_eq_gt.2 (hgt.1 (Std.compare_eq_gt.1 h'))] at h
          cases h

/-- Where the first of two numbers decides, it decides for their sums with
smaller ones. -/
theorem compare_mul_add {k m n a b : Nat} (ha : a < k) (hb : b < k) :
    compare (k * m + a) (k * n + b) = (compare m n).then (compare a b) := by
  rcases Nat.lt_trichotomy m n with h | h | h
  · have hmul := Nat.mul_le_mul_left k h
    rw [Nat.mul_succ] at hmul
    rw [Nat.compare_eq_lt.2 h, Nat.compare_eq_lt.2 (by omega)]
    rfl
  · subst h
    rw [Std.ReflOrd.compare_self]
    exact compare_congr (Nat.add_lt_add_iff_left ..)
      (Nat.add_lt_add_iff_left ..)
  · have hmul := Nat.mul_le_mul_left k h
    rw [Nat.mul_succ] at hmul
    rw [Nat.compare_eq_gt.2 h, Nat.compare_eq_gt.2 (by omega)]
    rfl

namespace Bytes

/-- The byte of a digit. -/
def ofDigit (c : Char) : UInt8 := UInt8.ofNat c.toNat

theorem encode_digit {c : Char} (h : c.isDigit = true) :
    String.utf8EncodeChar c = [ofDigit c] := by
  have hc := (Char.isDigit_iff_toNat.1 h).2
  have hle : c.val.toNat ≤ 127 := Nat.le_trans hc (by decide)
  unfold String.utf8EncodeChar
  rw [if_pos hle]
  rfl

theorem ofText_digits {digits : List Char}
    (h : ∀ c ∈ digits, c.isDigit = true) :
    ofText (.ofList digits) = digits.map ofDigit := by
  induction digits with
  | nil => rfl
  | cons c rest ih =>
      obtain ⟨hc, hrest⟩ := List.forall_mem_cons.1 h
      rw [ofText_eq_flatMap] at ih ⊢
      rw [String.toList_ofList] at ih ⊢
      rw [List.flatMap_cons, ih hrest, encode_digit hc, List.map_cons,
        List.singleton_append]

/-- Digits compare as their values do. -/
theorem compare_ofDigit {c d : Char} (hc : c.isDigit = true)
    (hd : d.isDigit = true) :
    compare (ofDigit c) (ofDigit d)
      = compare (c.toNat - '0'.toNat) (d.toNat - '0'.toNat) := by
  have hbelow : ∀ {e f : Char}, e.isDigit = true → f.isDigit = true →
      (ofDigit e < ofDigit f ↔ e.toNat - '0'.toNat < f.toNat - '0'.toNat) := by
    intro e f he hf
    obtain ⟨he, he'⟩ := Char.isDigit_iff_toNat.1 he
    obtain ⟨hf, hf'⟩ := Char.isDigit_iff_toNat.1 hf
    have hnine : '9'.toNat = 57 := rfl
    have hzero : '0'.toNat = 48 := rfl
    rw [ofDigit, ofDigit, UInt8.lt_iff_toNat_lt, UInt8.toNat_ofNat',
      UInt8.toNat_ofNat']
    omega
  exact compare_congr (hbelow hc hd) (hbelow hd hc)

/-- Numerals of as many digits compare as their numbers do: the first digit
that differs outweighs all digits behind it. -/
theorem compare_map_ofDigit : ∀ {a b : List Char}, a.length = b.length →
    (∀ c ∈ a, c.isDigit = true) → (∀ c ∈ b, c.isDigit = true) →
      compare (a.map ofDigit) (b.map ofDigit)
        = compare (Nat.ofDigitChars 10 a 0) (Nat.ofDigitChars 10 b 0) := by
  intro a
  induction a with
  | nil =>
      intro b hlength _ _
      obtain rfl := List.eq_nil_of_length_eq_zero hlength.symm
      rw [Std.ReflOrd.compare_self, Std.ReflOrd.compare_self]
  | cons c rest ih =>
      intro b hlength ha hb
      cases b with
      | nil => cases hlength
      | cons d back =>
          obtain ⟨hc, hrest⟩ := List.forall_mem_cons.1 ha
          obtain ⟨hd, hback⟩ := List.forall_mem_cons.1 hb
          have hlen : rest.length = back.length := Nat.succ.inj hlength
          have hlt := Text.ofDigitChars_lt hback
          rw [← hlen] at hlt
          rw [List.map_cons, List.map_cons, List.compare_cons_cons,
            ih hlen hrest hback, compare_ofDigit hc hd,
            Text.ofDigitChars_cons_zero, Text.ofDigitChars_cons_zero, ← hlen,
            compare_mul_add (Text.ofDigitChars_lt hrest) hlt]

/-- The bytes of a numeral of at least the given width. -/
def padded (width : Nat) (n : Int) : Bytes :=
  .ofText (.ofList (Text.padded width n))

variable {width m n : Nat}

theorem padded_eq (width n : Nat) :
    padded width (n : Int) = (Text.padded width (n : Int)).map ofDigit :=
  ofText_digits fun _ => Text.isDigit_of_mem_padded

/-- Numerals of one width compare as their numbers do. -/
theorem compare_padded (hw : 0 < width) (hm : m < 10 ^ width)
    (hn : n < 10 ^ width) :
    compare (padded width (m : Int)) (padded width (n : Int))
      = compare m n := by
  rw [padded_eq, padded_eq, compare_map_ofDigit _
    (fun _ => Text.isDigit_of_mem_padded)
    fun _ => Text.isDigit_of_mem_padded, Text.ofDigitChars_padded,
    Text.ofDigitChars_padded]
  rw [Text.length_padded hw hm, Text.length_padded hw hn]

end Bytes

-- ================================================== entries

/-- True of two rowsets of which the name of one goes on behind that of the
other with a byte below that of the slash. -/
def RowsetId.Inverts (r s : RowsetId) : Prop :=
  ∃ c rest, c < Bytes.slash
    ∧ (s.bytes = r.bytes ++ c :: rest ∨ r.bytes = s.bytes ++ c :: rest)

instance (r s : RowsetId) : Decidable (r.Inverts s) :=
  decidable_of_iff _ Bytes.inverts_iff

namespace RowsetId

variable {r s : RowsetId}

theorem Inverts.symm (h : r.Inverts s) : s.Inverts r := by
  obtain ⟨c, rest, hc, h⟩ := h
  exact ⟨c, rest, hc, h.symm⟩

theorem not_inverts_self : ¬ r.Inverts r := by
  intro ⟨c, rest, _, h⟩
  rcases h with h | h
  · exact List.cons_ne_nil _ _ (List.self_eq_append_right.1 h)
  · exact List.cons_ne_nil _ _ (List.self_eq_append_right.1 h)

/-- A name that passes the check has no byte of a slash. -/
theorem slash_notMem (h : r.IsValid) : Bytes.slash ∉ r.bytes :=
  Bytes.slash_notMem_ofText (notMem_slash h)

end RowsetId

namespace BitmapKey

/-- True of keys whose rowset has a name that passes the check, and whose
version is not below zero. -/
structure IsPlain (key : BitmapKey) : Prop where
  rowset : key.rowset.IsValid
  version : 0 ≤ key.version.val

/-- How the store lists two keys: by rowset, segment and version, but with the
two rowsets the other way round if the name of one goes on behind that of the
other with a byte below that of the slash. -/
def listed (a b : BitmapKey) : Ordering :=
  if a.rowset.Inverts b.rowset then (compare a b).swap else compare a b

variable {i : InstanceId} {tablet : TabletId} {a b : BitmapKey}

theorem stored_eq (key : BitmapKey) (i : InstanceId) (tablet : TabletId) :
    key.stored i tablet
      = tablet.stem i ++ (key.rowset.bytes ++ Bytes.slash
        :: (Bytes.padded 10 (key.segment.val.toNat : Int)
          ++ Bytes.slash :: Bytes.padded 20 key.version.val.toInt)) := by
  have hslash : Bytes.ofText "/" = [Bytes.slash] := by decide
  rw [stored, Key.entry, Key.rowsetStem, Key.number, Bytes.ofText_append,
    Bytes.ofText_append, Bytes.ofText_append, Bytes.ofText_append,
    Bytes.ofText_append, hslash]
  simp only [List.append_assoc, List.singleton_append]
  rfl

theorem length_segment (n : UInt32) :
    (Bytes.padded 10 (n.toNat : Int)).length = 10 := by
  rw [Bytes.padded_eq, List.length_map, Text.length_padded_uint32]

/-- The numerals of segments compare as their numbers do. -/
theorem compare_segment (m n : UInt32) :
    compare (Bytes.padded 10 (m.toNat : Int)) (Bytes.padded 10 (n.toNat : Int))
      = compare m n := by
  have hm := m.toNat_lt
  have hn := n.toNat_lt
  rw [Bytes.compare_padded (by decide) (by omega) (by omega)]
  exact compare_congr UInt32.lt_iff_toNat_lt.symm UInt32.lt_iff_toNat_lt.symm

/-- So do those of versions that are not below zero. -/
theorem compare_version {m n : Int64} (hm : 0 ≤ m) (hn : 0 ≤ n) :
    compare (Bytes.padded 20 m.toInt) (Bytes.padded 20 n.toInt)
      = compare m n := by
  obtain ⟨k, hk⟩ := Int.eq_ofNat_of_zero_le (Int64.le_iff_toInt_le.1 hm)
  obtain ⟨l, hl⟩ := Int.eq_ofNat_of_zero_le (Int64.le_iff_toInt_le.1 hn)
  have hk' := m.toInt_lt
  have hl' := n.toInt_lt
  rw [hk, hl, Bytes.compare_padded (by decide) (by omega) (by omega)]
  apply compare_congr
  · rw [Int64.lt_iff_toInt_lt, hk, hl, Int.ofNat_lt]
  · rw [Int64.lt_iff_toInt_lt, hk, hl, Int.ofNat_lt]

/-- The rowsets decide on the order of keys unless they are the same, and then
neither is listed the other way round. -/
theorem listed_eq (a b : BitmapKey) :
    a.listed b = (if a.rowset.Inverts b.rowset
        then (compare a.rowset.bytes b.rowset.bytes).swap
        else compare a.rowset.bytes b.rowset.bytes).then
      ((compare a.segment.val b.segment.val).then
        (compare a.version.val b.version.val)) := by
  unfold listed
  rw [DeleteBitmap.compare_key]
  by_cases h : a.rowset.Inverts b.rowset
  · rw [if_pos h, if_pos h]
    cases hrowset : compare a.rowset.bytes b.rowset.bytes with
    | lt => rfl
    | gt => rfl
    | eq =>
        exfalso
        apply RowsetId.not_inverts_self (r := a.rowset)
        rwa [← RowsetId.text_inj.1
          (Bytes.ofText_inj (Std.LawfulEqOrd.eq_of_compare hrowset))] at h
  · rw [if_neg h, if_neg h]

/-- Which of two entries of a tablet the store lists first. -/
theorem compare_stored (ha : a.IsPlain) (hb : b.IsPlain) :
    compare (a.stored i tablet) (b.stored i tablet) = a.listed b := by
  rw [stored_eq, stored_eq, Bytes.compare_append_left,
    Bytes.compare_append_slash (RowsetId.slash_notMem ha.rowset)
      (RowsetId.slash_notMem hb.rowset),
    Bytes.compare_append ((length_segment _).trans (length_segment _).symm),
    List.compare_cons_cons, Std.ReflOrd.compare_self, Ordering.eq_then,
    compare_segment, compare_version ha.version hb.version, listed_eq]
  by_cases h : a.rowset.Inverts b.rowset
  · rw [if_pos h, if_pos (Bytes.inverts_iff.2 h)]
  · rw [if_neg h, if_neg fun hinverts => h (Bytes.inverts_iff.1 hinverts)]

end BitmapKey

-- ================================================== listings

/-- True of entries among which those of a tablet are all of plain keys. -/
def Entries.HasBitmaps (entries : Entries) (i : InstanceId)
    (tablet : TabletId) : Prop :=
  ∀ key value, entries.get? key = some value → tablet.stem i <+: key →
    ∃ k : BitmapKey, k.IsPlain ∧ k.stored i tablet = key

namespace BitmapKey

variable {i : InstanceId} {tablet : TabletId} {entries : Entries}

theorem hasBitmaps_empty : Entries.HasBitmaps ∅ i tablet := nofun

/-- One more bitmap. -/
theorem hasBitmaps_insert (h : entries.HasBitmaps i tablet) {k : BitmapKey}
    (hk : k.IsPlain) (value : Bytes) :
    Entries.HasBitmaps (entries.insert (k.stored i tablet) value) i tablet := by
  intro key held hget hstem
  by_cases heq : key = k.stored i tablet
  · exact ⟨k, hk, heq.symm⟩
  · rw [SortedMap.get?_insert_of_ne _ _ heq] at hget
    exact h key held hget hstem

/-- What extends the stem of the tablet is listed in the order of its keys. -/
theorem exists_listed (h : entries.HasBitmaps i tablet) :
    ∃ keys : List BitmapKey, (∀ k ∈ keys, k.IsPlain)
      ∧ (entries.within (.extending (tablet.stem i))).keys
        = keys.map (·.stored i tablet)
      ∧ keys.Pairwise fun a b => a.listed b = .lt := by
  have hkeys : ∀ key ∈ (entries.within (.extending (tablet.stem i))).keys,
      ∃ k : BitmapKey, k.IsPlain ∧ k.stored i tablet = key := by
    intro key hkey
    obtain ⟨⟨_, value⟩, hmem, rfl⟩ := List.mem_map.1 hkey
    obtain ⟨hmem, hwithin⟩ := List.mem_filter.1 hmem
    exact h _ value (SortedMap.mem_toList_iff.1 hmem)
      (KeyRange.contains_extending.1 hwithin)
  have hascending : (entries.within
      (.extending (tablet.stem i))).keys.Pairwise fun a b => compare a b = .lt :=
    List.pairwise_map.2 (SortedMap.ascending _)
  generalize (entries.within (.extending (tablet.stem i))).keys = found at *
  obtain ⟨keys, hplain, rfl⟩ : ∃ keys : List BitmapKey, (∀ k ∈ keys, k.IsPlain)
      ∧ found = keys.map (·.stored i tablet) := by
    clear hascending
    induction found with
    | nil => exact ⟨[], nofun, rfl⟩
    | cons key rest ih =>
        obtain ⟨⟨k, hk, rfl⟩, hrest⟩ := List.forall_mem_cons.1 hkeys
        obtain ⟨keys, hplain, rfl⟩ := ih hrest
        exact ⟨k :: keys, List.forall_mem_cons.2 ⟨hk, hplain⟩, rfl⟩
  refine ⟨keys, hplain, rfl, ?_⟩
  refine List.Pairwise.imp_of_mem ?_ (List.pairwise_map.1 hascending)
  intro a b ha hb hlt
  rw [← compare_stored (hplain a ha) (hplain b hb)]
  exact hlt

/-- A list in the order of the store is in that of the keys unless two of its
rowsets are the other way round. -/
theorem pairwise_iff_of_listed {keys : List BitmapKey}
    (h : keys.Pairwise fun a b => a.listed b = .lt) :
    keys.Pairwise (fun a b => compare a b = .lt)
      ↔ ∀ a ∈ keys, ∀ b ∈ keys, ¬ a.rowset.Inverts b.rowset := by
  have hiff : ∀ a b : BitmapKey, a.listed b = .lt →
      (compare a b = .lt ↔ ¬ a.rowset.Inverts b.rowset) := by
    intro a b hlisted
    unfold listed at hlisted
    by_cases hinverts : a.rowset.Inverts b.rowset
    · rw [if_pos hinverts] at hlisted
      refine iff_of_false ?_ (not_not_intro hinverts)
      intro hlt
      rw [hlt] at hlisted
      cases hlisted
    · rw [if_neg hinverts] at hlisted
      exact iff_of_true hlisted hinverts
  constructor
  · intro hsorted a ha b hb
    have hsides := (h.and hsorted).imp fun {a b} hab =>
      (hiff a b hab.1).1 hab.2
    exact hsides.forall_of_forall_of_flip
      (fun _ _ => RowsetId.not_inverts_self)
      (hsides.imp fun hab hba => hab hba.symm) ha hb
  · intro hsides
    refine List.Pairwise.imp_of_mem ?_ h
    intro a b ha hb hlisted
    exact (hiff a b hlisted).2 (hsides a ha b hb)

/-- The keys of two entries of a tablet compare by rowset, segment and version
unless the name of one rowset goes on behind that of the other with a byte
below the slash; then they compare the other way round. A scan of the tablet
lists its bitmaps in this order of the store. So it lists them by rowset,
segment and version exactly if no two of them are of rowsets with such names. -/
theorem listed_by_name_and_slash (i : InstanceId) (tablet : TabletId)
    {a b : BitmapKey} (ha : a.IsPlain) (hb : b.IsPlain) :
    (compare (a.stored i tablet) (b.stored i tablet)
        = if a.rowset.Inverts b.rowset then (compare a b).swap
          else compare a b)
      ∧ ∀ t : Txn, t.view.HasBitmaps i tablet →
        ∃ keys : List BitmapKey,
          (t.scan (tablet.stem i)).1.map Prod.fst
              = keys.map (·.stored i tablet)
            ∧ keys.Pairwise (fun a b => a.listed b = .lt)
            ∧ (keys.Pairwise (fun a b => compare a b = .lt)
              ↔ ∀ a ∈ keys, ∀ b ∈ keys, ¬ a.rowset.Inverts b.rowset) := by
  refine ⟨compare_stored ha hb, ?_⟩
  intro t ht
  obtain ⟨keys, _, hkeys, hlisted⟩ := exists_listed ht
  exact ⟨keys, hkeys, hlisted, pairwise_iff_of_listed hlisted⟩

/-- Two bitmaps of a tablet: of a rowset, and of one that is named like it with
a hyphen behind. -/
def hyphened : Txn :=
  ((Txn.open {} 0).put (stored ⟨⟨"a"⟩, ⟨0⟩, ⟨1⟩⟩ ⟨"inst"⟩ ⟨1⟩) [1]).put
    (stored ⟨⟨"a-"⟩, ⟨0⟩, ⟨1⟩⟩ ⟨"inst"⟩ ⟨1⟩) [2]

/-- The keys of the two compare the other way round than the names, and a scan
lists them in the order of the store. -/
theorem listed_by_name_and_slash_hyphened :
    compare (stored ⟨⟨"a"⟩, ⟨0⟩, ⟨1⟩⟩ ⟨"inst"⟩ ⟨1⟩)
        (stored ⟨⟨"a-"⟩, ⟨0⟩, ⟨1⟩⟩ ⟨"inst"⟩ ⟨1⟩) = .gt
      ∧ ∃ keys : List BitmapKey,
          (hyphened.scan (TabletId.stem ⟨1⟩ ⟨"inst"⟩)).1.map Prod.fst
              = keys.map (·.stored ⟨"inst"⟩ ⟨1⟩)
            ∧ keys.Pairwise (fun a b => a.listed b = .lt) := by
  have ha : IsPlain ⟨⟨"a"⟩, ⟨0⟩, ⟨1⟩⟩ := ⟨by decide, by decide⟩
  have hb : IsPlain ⟨⟨"a-"⟩, ⟨0⟩, ⟨1⟩⟩ := ⟨by decide, by decide⟩
  have hbitmaps : hyphened.view.HasBitmaps ⟨"inst"⟩ ⟨1⟩ := by
    rw [hyphened, Txn.view_put, Txn.view_put]
    exact hasBitmaps_insert (hasBitmaps_insert hasBitmaps_empty ha [1]) hb [2]
  obtain ⟨hcompare, hscan⟩ :=
    listed_by_name_and_slash ⟨"inst"⟩ ⟨1⟩ ha hb
  obtain ⟨keys, hkeys, hlisted, _⟩ := hscan hyphened hbitmaps
  exact ⟨hcompare, keys, hkeys, hlisted⟩

/-- The name `a` comes before the name `a-`, and the entries of the rowset `a`
behind those of the rowset `a-`, in the order of their keys and in what a scan
of the tablet lists. -/
theorem hyphen_listed_first :
    let a : BitmapKey := ⟨⟨"a"⟩, ⟨0⟩, ⟨1⟩⟩
    let b : BitmapKey := ⟨⟨"a-"⟩, ⟨0⟩, ⟨1⟩⟩
    let i : InstanceId := ⟨"inst"⟩
    (i.IsValid ∧ a.IsPlain ∧ b.IsPlain)
      ∧ compare a b = .lt
      ∧ compare (a.stored i ⟨1⟩) (b.stored i ⟨1⟩) = .gt
      ∧ (hyphened.scan (TabletId.stem ⟨1⟩ i)).1.map Prod.fst
        = [b.stored i ⟨1⟩, a.stored i ⟨1⟩] := by
  refine ⟨⟨by decide, ⟨by decide, by decide⟩, by decide, by decide⟩, ?_, ?_, ?_⟩
  · decide
  · decide
  · decide

end BitmapKey

end MergeOnWrite
