/-
What requests for delete bitmap entries are told.

A request that reads entries scans the rowsets that it names, one after
another, and puts together what lies between its versions. A rowset that is
named twice is put together with itself. Where the entries that its
transaction began with hold a map of bitmaps, it is told a selection of that
map.

# Main statements

- `Handler.safe_collect`, `Handler.safe_collectRowsets`: what has been put
  together is a part of the bitmap, key by key.
- `ReadBitmap.safe_readBitmap`: the response is the selection, and nothing
  is committed.
-/
import MergeOnWrite.Proofs.Service.BitmapEffect
import MergeOnWrite.Proofs.Service.Bitmaps

namespace MergeOnWrite

-- ================================================== listings

/-- True of a listing of some entries of a bitmap, as the store has them. -/
structure DeleteBitmap.Lists (whole : DeleteBitmap) (i : InstanceId)
    (tablet : TabletId) (l : List (Bytes × Bytes)) : Prop where
  isValid : ∀ key, (whole.get? key).isSome → key.rowset.IsValid
  isEntry : ∀ e ∈ l, ∃ key rows, whole.get? key = some rows
    ∧ e = (key.stored i tablet, rows.encode)

namespace DeleteBitmap.Lists

variable {whole : DeleteBitmap} {i : InstanceId} {tablet : TabletId}
  {bytes value : Bytes} {rest : List (Bytes × Bytes)}

theorem tail (h : whole.Lists i tablet ((bytes, value) :: rest)) :
    whole.Lists i tablet rest :=
  ⟨h.isValid, fun e he => h.isEntry e (List.mem_cons_of_mem _ he)⟩

/-- What a listing begins with is the entry at the key that is parsed, and
no other entry of the bitmap. -/
theorem head (h : whole.Lists i tablet ((bytes, value) :: rest))
    (hi : i.IsValid) (key : BitmapKey) (hparse : Key.parseEntry? bytes
      = some (key.rowset, key.segment, key.version)) :
    ∃ rows, whole.get? key = some rows ∧ value = rows.encode
      ∧ ∀ other, (whole.get? other).isSome →
        (other.stored i tablet = bytes ↔ other = key) := by
  obtain ⟨key', rows, hkey, heq⟩ := h.isEntry _ (List.mem_cons_self ..)
  obtain ⟨rfl, rfl⟩ := Prod.mk.inj heq
  have hvalid := h.isValid key' (by rw [hkey]; rfl)
  have hsame : key' = key := by
    rw [BitmapKey.parse_stored hi hvalid] at hparse
    obtain ⟨_, _, _⟩ := key'
    obtain ⟨_, _, _⟩ := key
    cases hparse
    rfl
  subst hsame
  exact ⟨rows, hkey, rfl, fun other hother =>
    ⟨BitmapKey.stored_inj hi (h.isValid other hother) hvalid,
      fun hother => hother ▸ rfl⟩⟩

end DeleteBitmap.Lists

namespace Entries.Holds

variable {entries : Entries} {m : Bitmaps} {i : InstanceId}
  {tablet : TabletId} {rowset : RowsetId}

theorem lists_scan (h : entries.Holds m) (hi : i.IsValid)
    (hrowset : rowset.IsValid) :
    (m i tablet).Lists i tablet (entries.within (.extending
      (.ofText (Key.rowsetStem i tablet rowset)))).toList := by
  refine ⟨h.isValid i tablet, fun e he => ?_⟩
  obtain ⟨key, rows, -, hrows, heq⟩ := (h.mem_scan hi hrowset).1 he
  exact ⟨key, rows, hrows, heq⟩

/-- A scan of a rowset lists all of its entries. -/
theorem stored_mem_scan (h : entries.Holds m) (hi : i.IsValid)
    (hrowset : rowset.IsValid) {key : BitmapKey}
    (hsome : ((m i tablet).get? key).isSome) :
    key.stored i tablet ∈ (entries.within (.extending
        (.ofText (Key.rowsetStem i tablet rowset)))).toList.map Prod.fst
      ↔ key.rowset = rowset := by
  constructor
  · intro hmem
    obtain ⟨e, he, hstored⟩ := List.mem_map.1 hmem
    obtain ⟨other, rows, rfl, hrows, rfl⟩ := (h.mem_scan hi hrowset).1 he
    rw [BitmapKey.stored_inj hi hrowset (h.isValid i tablet key hsome)
      hstored]
  · intro hsame
    obtain ⟨rows, hrows⟩ := Option.isSome_iff_exists.1 hsome
    exact List.mem_map.2 ⟨_,
      (h.mem_scan hi hrowset).2 ⟨key, rows, hsame, hrows, rfl⟩, rfl⟩

end Entries.Holds

-- ================================================== reading

namespace Handler

variable {c : Contract} {p : Progress} {d : Draft} {i : InstanceId}
  {tablet : TabletId} {first last : Version}

/-- What a listing tells is added, as far as it lies between the
versions. -/
theorem safe_collect (tablet : TabletId) (h₀ : p.commits = 0)
    (hi : i.IsValid) :
    ∀ {l : List (Bytes × Bytes)} {b : DeleteBitmap},
      Safe c (fun p' b' => p' = p ∧ ∀ whole kind, whole.Lists i tablet l →
          b.IsRestriction whole kind →
          b'.IsRestriction whole fun key => kind key
            ∨ key.stored i tablet ∈ l.map Prod.fst ∧ first ≤ key.version
              ∧ key.version ≤ last)
        p (collect first last b l) := by
  intro l
  induction l with
  | nil =>
      intro b
      refine safe_pure ⟨rfl, fun whole kind _ hpart =>
        hpart.congr fun key _ => ?_⟩
      simp only [List.map_nil, List.not_mem_nil, false_and, or_false]
  | cons entry rest ih =>
      intro b
      obtain ⟨bytes, value⟩ := entry
      rw [collect]
      split
      · exact safe_throw h₀
      · rename_i rowset segment version hparse
        split
        · rename_i hrange
          refine safe_bind (safe_rowsOf h₀ fun containers hread => ?_)
          refine safe_mono (fun p' b' h => ?_) ih
          obtain ⟨hp, hpart'⟩ := h
          refine ⟨hp, fun whole kind hlists hpart => ?_⟩
          obtain ⟨rows, hkey, rfl, hbytes⟩ :=
            hlists.head hi ⟨rowset, segment, version⟩ hparse
          have hdecode := rows.decodeAll_encode []
          rw [List.append_nil, hread] at hdecode
          rw [Except.ok.inj hdecode, rows.ofContainers_containers] at hpart'
          refine (hpart' whole _ hlists.tail
            (hpart.mergeEntry hkey)).congr fun key hsome => ?_
          simp only [List.map_cons, List.mem_cons, hbytes key hsome]
          constructor
          · rintro ((hkind | rfl) | ⟨hmem, hversion⟩)
            · exact .inl hkind
            · exact .inr ⟨.inl rfl, hrange⟩
            · exact .inr ⟨.inr hmem, hversion⟩
          · rintro (hkind | ⟨rfl | hmem, hversion⟩)
            · exact .inl (.inl hkind)
            · exact .inl (.inr rfl)
            · exact .inr ⟨hmem, hversion⟩
        · rename_i hrange
          refine safe_mono (fun p' b' h => ?_) ih
          obtain ⟨hp, hpart'⟩ := h
          refine ⟨hp, fun whole kind hlists hpart => ?_⟩
          obtain ⟨rows, hkey, rfl, hbytes⟩ :=
            hlists.head hi ⟨rowset, segment, version⟩ hparse
          refine (hpart' whole kind hlists.tail hpart).congr
            fun key hsome => ?_
          simp only [List.map_cons, List.mem_cons, hbytes key hsome]
          constructor
          · rintro (hkind | ⟨hmem, hversion⟩)
            · exact .inl hkind
            · exact .inr ⟨.inr hmem, hversion⟩
          · rintro (hkind | ⟨rfl | hmem, hversion⟩)
            · exact .inl hkind
            · exact absurd hversion hrange
            · exact .inr ⟨hmem, hversion⟩

/-- The rowsets that are named are added, whether or not they repeat. -/
theorem safe_collectRowsets (h₀ : p.commits = 0) (hd : p.draft = some d)
    (hi : i.IsValid) :
    ∀ {l : List String} {b : DeleteBitmap},
      Safe c (fun p' b' => p' = p ∧ ∀ m kind, d.after.Holds m →
          b.IsRestriction (m i tablet) kind →
          b'.IsRestriction (m i tablet) fun key => kind key
            ∨ key.rowset.text ∈ l ∧ first ≤ key.version
              ∧ key.version ≤ last)
        p (collectRowsets i tablet first last b l) := by
  intro l
  induction l with
  | nil =>
      intro b
      refine safe_pure ⟨rfl, fun m kind _ hpart =>
        hpart.congr fun key _ => ?_⟩
      simp only [List.not_mem_nil, false_and, or_false]
  | cons name rest ih =>
      intro b
      refine safe_bind (safe_rowsetOf h₀ fun rowset hrowset => ?_)
      obtain ⟨hvalid, rfl⟩ := RowsetId.eq_of_ofText hrowset
      refine safe_bind (safe_scan h₀ hd ?_)
      refine safe_bind (safe_mono (fun p' b₁ h => ?_)
        (safe_collect tablet h₀ hi))
      obtain ⟨rfl, hfirst⟩ := h
      refine safe_mono (fun p'' b' h => ?_) ih
      obtain ⟨rfl, hrest⟩ := h
      refine ⟨rfl, fun m kind hholds hpart => ?_⟩
      refine (hrest m _ hholds (hfirst _ kind
        (hholds.lists_scan hi hvalid) hpart)).congr fun key hsome => ?_
      rw [hholds.stored_mem_scan hi hvalid hsome, ← RowsetId.text_inj,
        List.mem_cons, or_assoc, ← or_and_right]

end Handler

/-- A request that reads entries is told those that it selects, of the map
that its transaction began with, and commits nothing. -/
theorem ReadBitmap.safe_readBitmap (route : InstanceId → LockVersion)
    (r : ReadBitmap) :
    Handler.Safe ⟨route, fun _ _ => False⟩ (fun p b => p.commits = 0
        ∧ ∃ i d, InstanceId.ofText r.instanceName = .ok i ∧ p.draft = some d
          ∧ ∀ m, d.before.Holds m →
            b = (m i r.tablet).select r.rowsets r.beginVersion r.endVersion)
      {} (Handler.readBitmap r) := by
  unfold Handler.readBitmap
  refine Handler.safe_bind (Handler.safe_instanceOf rfl fun i hi => ?_)
  split
  · refine Handler.safe_bind (Handler.safe_start rfl fun entries => ?_)
    refine Handler.safe_mono (fun p b h => ?_)
      (Handler.safe_collectRowsets rfl rfl (InstanceId.isValid_of_ofText hi))
    obtain ⟨rfl, hpart⟩ := h
    refine ⟨rfl, i, _, hi, rfl, fun m hholds => ?_⟩
    refine DeleteBitmap.IsRestriction.eq_select
      ((hpart m _ hholds (.empty _)).congr fun key _ => ?_)
    exact iff_of_eq (false_or _)
  · exact Handler.safe_throw rfl

end MergeOnWrite
