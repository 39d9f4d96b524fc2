/-
What requests do to the delete bitmaps of all tablets.

Of all requests only two change the bitmaps that the store holds: one
overwrites entries of a tablet, the other removes the rowsets that it
names. Locks and statistics stand below the keys of no tablet. So a commit
leads from entries that hold a map to entries that hold the map after the
request (`Bitmaps.afterCall`), and a request that reads is told a selection
of the map.

# Main statements

- `UpdateBitmap.Rewrites.holds`, `RemoveBitmap.Rewrites.holds`: what is
  stored and removed is stored and removed in the map.
- `Call.safe_bitmaps`: an attempt at a request changes the map as the
  request says, and is told what the map has.
-/
import MergeOnWrite.Proofs.Service.Attempt

namespace MergeOnWrite

-- ================================================== the map

/-- The bitmaps after a request that succeeded. -/
def Bitmaps.afterCall (m : Bitmaps) : Call → Bitmaps
  | .updateBitmap r => m.change r.instanceName r.tablet (·.overwrite r.bitmap)
  | .removeBitmap r => m.change r.instanceName r.tablet (·.without r.rowsets)
  | .acquireLock _ | .releaseLock _ | .readBitmap _ => m

/-- What a request that succeeded is told of the bitmaps. -/
def Bitmaps.Tells (m : Bitmaps) : (call : Call) → call.Payload → Prop
  | .readBitmap r, b => ∃ i, InstanceId.ofText r.instanceName = .ok i
    ∧ b = (m i r.tablet).select r.rowsets r.beginVersion r.endVersion
  | _, _ => True

/-- True of requests that store entries of valid rowsets only. -/
def Call.NamesRowsets : Call → Prop
  | .updateBitmap r => ∀ e ∈ r.bitmap.toList, e.1.rowset.IsValid
  | _ => True

instance (call : Call) : Decidable call.NamesRowsets := by
  cases call with
  | updateBitmap r =>
      exact inferInstanceAs
        (Decidable (∀ e ∈ r.bitmap.toList, e.1.rowset.IsValid))
  | _ => exact isTrue trivial

-- ================================================== storing

namespace Entries

variable {entries : Entries} {i : InstanceId} {tablet : TabletId}
  {l : List (BitmapKey × RowSet)}

theorem get?_putAll_of_ne {bytes : Bytes}
    (h : ∀ e ∈ l, bytes ≠ e.1.stored i tablet) :
    (entries.putAll i tablet l).get? bytes = entries.get? bytes :=
  SortedMap.get?_foldl_insert_of_ne h

theorem get?_putAll_of_mem (entries : Entries) {e : BitmapKey × RowSet}
    (hdistinct : l.Pairwise fun a b =>
      a.1.stored i tablet ≠ b.1.stored i tablet) (he : e ∈ l) :
    (entries.putAll i tablet l).get? (e.1.stored i tablet)
      = some e.2.encode :=
  SortedMap.get?_foldl_insert hdistinct he

/-- After all entries of a bitmap have been put, its keys have its rows, and
all others have what they had. -/
theorem get?_putAll {bitmap : DeleteBitmap} {key : BitmapKey}
    (hi : i.IsValid) (hnames : ∀ e ∈ bitmap.toList, e.1.rowset.IsValid)
    (hkey : key.rowset.IsValid) :
    (entries.putAll i tablet bitmap.toList).get? (key.stored i tablet)
      = ((bitmap.get? key).map RowSet.encode).or
        (entries.get? (key.stored i tablet)) := by
  have hdistinct : bitmap.toList.Pairwise fun a b =>
      a.1.stored i tablet ≠ b.1.stored i tablet := by
    refine bitmap.entries.ascending.imp_of_mem fun ha hb hlt heq => ?_
    rw [BitmapKey.stored_inj hi (hnames _ ha) (hnames _ hb) heq,
      Std.ReflOrd.compare_self] at hlt
    cases hlt
  cases hget : bitmap.get? key with
  | some rows =>
      have hmem : (key, rows) ∈ bitmap.toList := SortedMap.mem_toList_iff.2 hget
      have hput := get?_putAll_of_mem entries hdistinct hmem
      rw [Option.map_some, Option.some_or]
      exact hput
  | none =>
      refine get?_putAll_of_ne fun e he heq => ?_
      obtain rfl := BitmapKey.stored_inj hi hkey (hnames e he) heq
      have hsome := SortedMap.mem_toList_iff.1 he
      rw [show bitmap.entries.get? e.1 = none from hget] at hsome
      cases hsome

end Entries

/-- What is stored is stored in the map. -/
theorem UpdateBitmap.Rewrites.holds {r : UpdateBitmap} {i : InstanceId}
    {d : Draft} {m : Bitmaps} (h : r.Rewrites i d)
    (hi : InstanceId.ofText r.instanceName = .ok i)
    (hnames : ∀ e ∈ r.bitmap.toList, e.1.rowset.IsValid)
    (hm : d.before.Holds m) :
    d.after.Holds (m.afterCall (.updateBitmap r)) := by
  obtain ⟨entries, rows, hstats⟩ := h
  have hvalid := InstanceId.isValid_of_ofText hi
  have hput : ∀ (j : InstanceId) (other : TabletId) bytes, j.IsValid →
      other.stem j <+: bytes → d.after.get? bytes
        = (d.before.putAll i r.tablet r.bitmap.toList).get? bytes :=
    fun j other bytes hj hext => hstats.get?_of_extends hvalid hj hext
  show d.after.Holds (m.change r.instanceName r.tablet (·.overwrite r.bitmap))
  rw [← InstanceId.text_of_ofText hi]
  refine hm.change (fun j other bytes hj hne hext => ?_) (fun key hkey => ?_)
    (fun bytes hext hsome => ?_) fun key hsome => ?_
  · rw [hput j other bytes hj hext]
    refine Entries.get?_putAll_of_ne fun e _ heq => hne ?_
    rw [heq] at hext
    exact Key.tabletStem_disjoint hj hvalid hext (e.1.stored_extends i r.tablet)
  · rw [hput i r.tablet _ hvalid (key.stored_extends i r.tablet),
      Entries.get?_putAll hvalid hnames hkey,
      hm.get?_stored i r.tablet key hvalid hkey, DeleteBitmap.get?_overwrite,
      Option.map_or]
  · by_cases hnew : ∃ e ∈ r.bitmap.toList, bytes = e.1.stored i r.tablet
    · obtain ⟨e, he, rfl⟩ := hnew
      exact ⟨e.1, hnames e he, rfl⟩
    · rw [hput i r.tablet bytes hvalid hext, Entries.get?_putAll_of_ne
        fun e he heq => hnew ⟨e, he, heq⟩] at hsome
      exact hm.eq_stored i r.tablet bytes hvalid hext hsome
  · rw [DeleteBitmap.get?_overwrite] at hsome
    cases hnew : r.bitmap.get? key with
    | some rows => exact hnames _ (SortedMap.mem_toList_iff.2 hnew)
    | none =>
        rw [hnew, Option.none_or] at hsome
        exact hm.isValid i r.tablet key hsome

-- ================================================== removing

/-- What is removed is removed from the map. -/
theorem RemoveBitmap.Rewrites.holds {r : RemoveBitmap} {i : InstanceId}
    {d : Draft} {m : Bitmaps} (h : r.Rewrites i d)
    (hi : InstanceId.ofText r.instanceName = .ok i) (hm : d.before.Holds m) :
    d.after.Holds (m.afterCall (.removeBitmap r)) := by
  obtain ⟨mid, entries, rows, hcleared, hstats⟩ := h
  have hvalid := InstanceId.isValid_of_ofText hi
  have hmid : ∀ (j : InstanceId) (other : TabletId) bytes, j.IsValid →
      other.stem j <+: bytes → d.after.get? bytes = mid.get? bytes :=
    fun j other bytes hj hext => hstats.get?_of_extends hvalid hj hext
  -- the entries of the tablet that go are those of the named rowsets
  have hnamed : ∀ key : BitmapKey, key.rowset.IsValid →
      ((∃ name ∈ r.rowsets, Bytes.ofText (Key.rowsetStem i r.tablet ⟨name⟩)
          <+: key.stored i r.tablet) ↔ key.rowset.text ∈ r.rowsets) := by
    intro key hkey
    constructor
    · rintro ⟨name, hname, hstem⟩
      have hsame := (BitmapKey.rowsetStem_prefix_stored hvalid hkey
        (hcleared.isValid name hname)).1 hstem
      rw [hsame]
      exact hname
    · intro hmem
      exact ⟨_, hmem,
        (BitmapKey.rowsetStem_prefix_stored hvalid hkey hkey).2 rfl⟩
  show d.after.Holds (m.change r.instanceName r.tablet (·.without r.rowsets))
  rw [← InstanceId.text_of_ofText hi]
  refine hm.change (fun j other bytes hj hne hext => ?_) (fun key hkey => ?_)
    (fun bytes hext hsome => ?_) fun key hsome => ?_
  · rw [hmid j other bytes hj hext]
    refine hcleared.kept bytes fun name _ hstem => hne ?_
    exact Key.tabletStem_disjoint hj hvalid hext
      ((Key.rowsetStem_extends i r.tablet ⟨name⟩).trans hstem)
  · rw [hmid i r.tablet _ hvalid (key.stored_extends i r.tablet),
      DeleteBitmap.get?_without]
    by_cases hmem : key.rowset.text ∈ r.rowsets
    · rw [if_pos hmem, hcleared.gone _ ((hnamed key hkey).2 hmem)]
      rfl
    · rw [if_neg hmem, hcleared.kept _ fun name hname hstem =>
        hmem ((hnamed key hkey).1 ⟨name, hname, hstem⟩)]
      exact hm.get?_stored i r.tablet key hvalid hkey
  · rw [hmid i r.tablet bytes hvalid hext] at hsome
    by_cases hgone : ∃ name ∈ r.rowsets,
        Bytes.ofText (Key.rowsetStem i r.tablet ⟨name⟩) <+: bytes
    · rw [hcleared.gone bytes hgone] at hsome
      cases hsome
    · rw [hcleared.kept bytes fun name hname hstem =>
        hgone ⟨name, hname, hstem⟩] at hsome
      exact hm.eq_stored i r.tablet bytes hvalid hext hsome
  · rw [DeleteBitmap.get?_without] at hsome
    split at hsome
    · cases hsome
    · exact hm.isValid i r.tablet key hsome

-- ================================================== requests

/-- Records of locks stand below the keys of no tablet. -/
theorem Entries.Holds.of_locks {before after : Entries} {m : Bitmaps}
    {i : InstanceId} {scopes : List LockScope} (h : before.Holds m)
    (hi : i.IsValid)
    (hothers : ∀ key, (∀ scope ∈ scopes, key ≠ scope.keyBytes i) →
      after.get? key = before.get? key) : after.Holds m := by
  refine h.congr fun j tablet bytes hj hext => hothers bytes
    fun scope _ heq => ?_
  rw [heq] at hext
  exact Key.not_extends_lock hj hi hext

namespace Call

/-- What a commit of a request may do to the bitmaps. -/
def changesBitmaps (route : InstanceId → LockVersion) (call : Call) :
    Contract :=
  ⟨route, fun _ d => ∀ m, d.before.Holds m → d.after.Holds (m.afterCall call)⟩

/-- What a request that succeeded is told: what the bitmaps have that its
transaction began with. -/
def IsTold (call : Call) (p : Progress) (payload : call.Payload) : Prop :=
  call.writes ∨ ∃ d, p.draft = some d
    ∧ ∀ m : Bitmaps, d.before.Holds m → m.Tells call payload

/-- An attempt at a request changes the bitmaps as the request says, and is
told what they have. -/
theorem safe_bitmaps (route : InstanceId → LockVersion) (config : LockConfig)
    {call : Call} (hnames : call.NamesRowsets) :
    Script.Safe (call.changesBitmaps route) (fun p response =>
        call.Settled p response
          ∧ (response.status.code = .ok → call.IsTold p response.payload)) {}
      (call.attempt config) := by
  refine safe_attempt_of_handler ?_
  cases call with
  | acquireLock r =>
      refine Handler.safe_mono (fun p _ hp => ⟨hp, .inl rfl⟩)
        (Handler.safe_allow (r.safe_acquireLock route config) rfl
          fun readings d h m hm => ?_)
      obtain ⟨i, kind, scopes, now, expiration, heffect⟩ := h
      exact hm.of_locks (InstanceId.isValid_of_ofText heffect.instance_eq)
        heffect.others
  | releaseLock r =>
      refine Handler.safe_mono (fun p _ hp => ⟨hp, .inl rfl⟩)
        (Handler.safe_allow (r.safe_releaseLock route) rfl
          fun readings d h m hm => ?_)
      obtain ⟨i, kind, scopes, heffect⟩ := h
      exact hm.of_locks (InstanceId.isValid_of_ofText heffect.instance_eq)
        heffect.others
  | updateBitmap r =>
      refine Handler.safe_mono (fun p _ hp => ⟨hp, .inl rfl⟩)
        (Handler.safe_allow (r.safe_updateBitmap route) rfl
          fun readings d h m hm => ?_)
      obtain ⟨i, kind, heffect, hrewrites⟩ := h
      exact hrewrites.holds heffect.instance_eq hnames hm
  | readBitmap r =>
      refine Handler.safe_mono (fun p b hp => ?_)
        (Handler.safe_allow (r.safe_readBitmap route) rfl
          fun readings d h => h.elim)
      obtain ⟨hcommits, i, d, hi, hd, htold⟩ := hp
      exact ⟨hcommits, .inr ⟨d, hd, fun m hm => ⟨i, hi, htold m hm⟩⟩⟩
  | removeBitmap r =>
      refine Handler.safe_mono (fun p _ hp => ⟨hp, .inl rfl⟩)
        (Handler.safe_allow (r.safe_removeBitmap route) rfl
          fun readings d h m hm => ?_)
      obtain ⟨i, heffect, hrewrites⟩ := h
      exact hrewrites.holds heffect.instance_eq hm

end Call

end MergeOnWrite
