import ClusterFs.Proofs.Extent
import ClusterFs.Proofs.Frame
import ClusterFs.Proofs.Invariant

/-!
A delete undoes a write, on any volume. The write took only entries of the map that were empty and
a slot that was not used; the delete finds that very slot, releases exactly the chain that the write
linked, and so the same write can be made again with the same effect on every byte.
-/
namespace ClusterFs
open AllocationMap Volume

/-- Removing a child zeroes its slot and leaves the other bytes of the table. -/
theorem Directory.getElem_encode_setChild_empty (t : Directory) (i : Fin 62) {j : Nat}
    (hj : j < 2048) :
    (t.setChild i .empty).encode[j] = if j / 32 = slotOf i then 0 else t.encode[j] := by
  split_ifs with hslot
  · have hi := i.2
    have hlt : slotOf i < 64 := by
      simp only [slotOf, firstChildSlot]
      omega
    have hindex : 32 * slotOf i + j % 32 = j := by
      rw [← hslot]
      exact Nat.div_add_mod j 32
    have hne : firstChildSlot + i.1 ≠ 1 := by
      simp only [firstChildSlot]
      omega
    have hentry : (t.setChild i .empty).slot (slotOf i) = .empty := by
      simp [slot, slotOf, setChild, Vector.getD, hne]
    have hbyte := getElem_encode (t.setChild i .empty) hlt (Nat.mod_lt j (by decide))
    simp only [hindex, hentry] at hbyte
    rw [hbyte, Entry.getElem_encode_empty]
  · exact getElem_encode_setChild t i .empty hj hslot

/-- A write saves the map. -/
theorem Volume.saveMap_mem_writeSteps {map : AllocationMap} {table : Directory} {name : ShortName}
    {data : Payload} {p : Placement} (h : place map table name data.size = .ok p)
    (parent : UInt32) : .saveMap ∈ writeSteps parent table name data p := by
  rw [writeSteps_eq]
  apply List.mem_append_left
  unfold contentSteps
  split
  · simp [directorySteps]
  · cases hclusters : p.clusters with
    | nil =>
      have hfirst := (placement_clusters h).2.2.2
      simp [hclusters] at hfirst
    | cons c rest => simp [fileSteps]

/-- A placement depends on a table only through the searches for the name and for a vacancy. -/
theorem Volume.place_congr {map : AllocationMap} {t u : Directory} {name : ShortName} {size : Nat}
    (hfind : u.find? name = t.find? name) (hvacancy : u.vacancy? = t.vacancy?) :
    place map u name size = place map t name size := by
  simp only [place, hfind, hvacancy]

namespace Contents

variable {x : Contents} {parent : UInt32} {name : ShortName} {data : Payload} {p : Placement}
  (haccepts : x.accepts parent = true)
  (hplace : place x.map (x.table parent) name data.size = .ok p)
include haccepts hplace

theorem table_applyAll_writeSteps :
    (x.applyAll (writeSteps parent (x.table parent) name data p)).table parent =
      (x.table parent).setChild p.index (newEntry name data p) := by
  have htable := (stored_contentSteps hplace).agree.table
    (notMem_clusters_of_accepts haccepts hplace) (isData_ne_mapCluster (isData_of_accepts haccepts))
  rw [applyAll_writeSteps haccepts hplace, table_setEntry, if_pos rfl, htable]

theorem accepts_applyAll_writeSteps :
    (x.applyAll (writeSteps parent (x.table parent) name data p)).accepts parent = true := by
  rw [applyAll_writeSteps haccepts hplace, accepts_setEntry,
    accepts_of_agreeOff (stored_contentSteps hplace).agree
      (notMem_clusters_of_accepts haccepts hplace) (isData_of_accepts haccepts), haccepts]

/-- The search by name finds the slot that the write chose. -/
theorem locate_applyAll_writeSteps :
    (x.applyAll (writeSteps parent (x.table parent) name data p)).locate parent name =
      .ok p.index := by
  have hnone := Directory.find?_eq_none_iff.mp (place_spec hplace).1
  have hfind : ((x.table parent).setChild p.index (newEntry name data p)).find? name =
      some p.index := by
    apply Directory.find?_of_unique
    · rw [Directory.get_setChild, if_pos rfl]
      rfl
    · rw [Directory.get_setChild, if_pos rfl]
      rfl
    · intro j hused hname
      rw [Directory.get_setChild] at hused hname
      split_ifs at hused hname with hj
      · exact hj
      · exact absurd hname (hnone j hused)
  rw [locate_of_accepts (accepts_applyAll_writeSteps haccepts hplace),
    table_applyAll_writeSteps haccepts hplace]
  simp only [hfind]

theorem child_applyAll_writeSteps :
    (x.applyAll (writeSteps parent (x.table parent) name data p)).child parent p.index =
      newEntry name data p := by
  rw [child, table_applyAll_writeSteps haccepts hplace, Directory.get_setChild, if_pos rfl]

/-- Releasing the chain of a write gives back the map, since the write took empty entries only. -/
theorem freeChain_applyAll_writeSteps :
    ((x.applyAll (writeSteps parent (x.table parent) name data p)).map.freeChain p.first).1 =
      x.map := by
  obtain ⟨-, hnodup, hfree, -⟩ := placement_clusters hplace
  have hstored := stored_contentSteps hplace
  have hchain := hstored.chain_eq hplace
  have hlinked := hstored.linked
  rw [applyAll_writeSteps haccepts hplace, map_setEntry]
  rw [← hchain] at hlinked hnodup
  refine ext_get? fun c => ?_
  rw [get?_freeChain_of_linked hlinked hnodup, hchain]
  split_ifs with hc
  · exact (hfree c hc).2.symm
  · exact hstored.agree.entry c hc

omit haccepts in
/-- With the slot emptied and the map as it was, the write would go where it went. -/
theorem place_setChild_empty :
    place x.map ((x.table parent).setChild p.index .empty) name data.size = .ok p := by
  obtain ⟨hfind, hvacancy, -, -⟩ := place_spec hplace
  have hunused := Directory.isUsed_of_vacancy? hvacancy
  rw [← hplace]
  apply place_congr
  · refine Directory.find?_setChild (fun hused => ?_) fun hused => nomatch hused
    rw [hunused] at hused
    contradiction
  · rw [hvacancy, Directory.vacancy?_eq_some_iff]
    refine ⟨by rw [Directory.get_setChild, if_pos rfl]; rfl, fun j hj => ?_⟩
    rw [Directory.get_setChild, if_neg (Fin.ne_of_lt hj)]
    exact (Directory.vacancy?_eq_some_iff.mp hvacancy).2 j hj

/-- The contents after the write and the delete. -/
theorem applyAll_deleteSteps_applyAll_writeSteps :
    let y := x.applyAll (writeSteps parent (x.table parent) name data p)
    (y.withMap x.map).applyAll (y.deleteSteps parent p.index) =
      ((y.withMap x.map).store parent
        ((x.table parent).setChild p.index .empty).encode).saveMap := by
  intro y
  have htable : y.table parent = (x.table parent).setChild p.index (newEntry name data p) :=
    table_applyAll_writeSteps haccepts hplace
  simp only [deleteSteps, htable, Directory.setChild_setChild, applyAll_cons, applyAll_nil, apply]

end Contents

namespace Storage
open Contents

variable {D : Type} [BlockDevice D] {S : Storage D} {v : Volume D} {n : Nat} {parent : UInt32}
  {name : ShortName} {data : Payload}

/-- A write that succeeds was placed, and the device has all that it stores. -/
theorem write_whole (hB : S.Bounded) (h : S.Working n v.disk) {first : UInt32}
    (hok : (v.write parent name data).outcome = .ok first) :
    ∃ p, p.first = first ∧ (S.contents v).placement parent name data.size = .ok p ∧
      (∀ step ∈ writeSteps parent ((S.contents v).table parent) name data p, step.Fits n) ∧
      S.Working n (v.write parent name data).volume.disk ∧
      S.view (v.write parent name data).volume =
        (writeSteps parent ((S.contents v).table parent) name data p).foldl Step.onImage
          (S.view v) := by
  have hparent : v.map.isTerminal parent = true → S.Has v.disk parent := by
    intro hterminal
    by_contra hpast
    obtain ⟨d, hopen, -⟩ := openDirectory_past hB h.ready hterminal hpast
    simp only [Volume.write, hopen, refuse] at hok
    cases hok
  rcases write_working hB h hparent name data with
    ⟨e, d, hwrite, -, -⟩ | ⟨p, outcome, done, rest, hplace, hdone, hw, hview, hfits, hend, houtcome⟩
  · rw [hwrite] at hok
    cases hok
  · rw [houtcome] at hok
    cases hend with
    | past hpast => cases hok
    | whole =>
      rw [List.append_nil] at hdone
      exact ⟨p, Except.ok.inj hok, hplace, hdone ▸ hfits, hw, hdone ▸ hview⟩

/-- A write on a device that has its parent and all that it stores succeeds. -/
theorem write_of_fits (hB : S.Bounded) (h : S.Working n v.disk) {p : Placement}
    (hplace : (S.contents v).placement parent name data.size = .ok p)
    (hfits : ∀ step ∈ writeSteps parent ((S.contents v).table parent) name data p, step.Fits n) :
    (v.write parent name data).outcome = .ok p.first ∧
      S.view (v.write parent name data).volume =
        (writeSteps parent ((S.contents v).table parent) name data p).foldl Step.onImage
          (S.view v) := by
  have hparent : S.Has v.disk parent := by
    rw [h.has_iff]
    exact fits_store.mp
      (hfits _ (writeSteps_eq .. ▸ List.mem_append_right _ (List.mem_singleton_self _)))
  rcases write_working hB h (fun _ => hparent) name data with
    ⟨e, d, -, -, hrefused⟩ | ⟨q, outcome, done, rest, hq, hdone, -, hview, -, hend, houtcome⟩
  · rw [hplace] at hrefused
    cases hrefused
  · obtain rfl := Except.ok.inj (hplace.symm.trans hq)
    cases hend with
    | whole =>
      rw [List.append_nil] at hdone
      exact ⟨houtcome, hdone ▸ hview⟩
    | past hpast => exact absurd (hfits _ (hdone ▸ by simp)) hpast

section Written

variable {u w : Volume D} {x : Contents} {p : Placement}

/-- After a write, a delete of its entry succeeds and puts the map back. -/
theorem delete_written (hB : S.Bounded) (h : S.Working n u.disk)
    (haccepts : x.accepts parent = true)
    (hplace : place x.map (x.table parent) name data.size = .ok p)
    (hfits : ∀ step ∈ writeSteps parent (x.table parent) name data p, step.Fits n)
    (hu : S.contents u = x.applyAll (writeSteps parent (x.table parent) name data p)) :
    (u.delete parent name).outcome = .ok () ∧ S.Working n (u.delete parent name).volume.disk ∧
      S.view (u.delete parent name).volume =
        ((S.contents u).deleteSteps parent p.index).foldl Step.onImage
          { S.view u with map := x.map } ∧
      S.contents (u.delete parent name).volume = (((S.contents u).withMap x.map).store parent
        ((x.table parent).setChild p.index .empty).encode).saveMap := by
  have hlocate := locate_applyAll_writeSteps haccepts hplace
  have hchild := child_applyAll_writeSteps haccepts hplace
  have hfreed := freeChain_applyAll_writeSteps haccepts hplace
  have hsteps := applyAll_deleteSteps_applyAll_writeSteps haccepts hplace
  rw [← hu] at hlocate hchild hfreed hsteps
  have hcluster : ((S.contents u).child parent p.index).cluster = p.first := by
    rw [hchild, newEntry, Entry.cluster_create]
  have hparent : clusterLba parent + sectorsPerCluster ≤ n := fits_store.mp
    (hfits _ (writeSteps_eq .. ▸ List.mem_append_right _ (List.mem_singleton_self _)))
  have hfirst : S.Has u.disk p.first := by
    obtain ⟨b, hb⟩ := exists_store_writeSteps hplace parent (placement_clusters hplace).2.2.2
    exact h.has_iff.mpr (fits_store.mp (hfits _ hb))
  have hrange : ∀ i, (S.contents u).locate parent name = .ok i →
      ((S.contents u).child parent i).isDirectory = true →
        S.Has u.disk ((S.contents u).child parent i).cluster := by
    intro i hi _
    rw [hlocate] at hi
    rw [← Except.ok.inj hi, hcluster]
    exact hfirst
  rcases delete_working hB h (fun _ => h.has_iff.mpr hparent) hrange with
    ⟨e, d, -, -, herror⟩ | ⟨i, hi, houtcome, hw, hview, hcontents⟩
  · rw [hlocate] at herror
    cases herror
  · obtain rfl := Except.ok.inj (hlocate.symm.trans hi)
    have hmap : (u.map.freeChain ((S.contents u).child parent p.index).cluster).1 = x.map := by
      rw [hcluster]
      exact hfreed
    rw [hmap] at hview hcontents
    exact ⟨houtcome, hw, hview, hcontents.trans hsteps⟩

/-- With the slot emptied and the map as it was, the same write is placed as before and takes the
same steps. -/
theorem write_repeated (hB : S.Bounded) (h : S.Working n w.disk)
    (haccepts : x.accepts parent = true)
    (hplace : place x.map (x.table parent) name data.size = .ok p)
    (hfits : ∀ step ∈ writeSteps parent (x.table parent) name data p, step.Fits n)
    (htable : (S.contents w).table parent = (x.table parent).setChild p.index .empty)
    (hmap : w.map = x.map) :
    (w.write parent name data).outcome = .ok p.first ∧
      S.view (w.write parent name data).volume =
        (writeSteps parent (x.table parent) name data p).foldl Step.onImage (S.view w) := by
  have hsame : writeSteps parent ((S.contents w).table parent) name data p =
      writeSteps parent (x.table parent) name data p := by
    rw [writeSteps_eq, writeSteps_eq, htable, Directory.setChild_setChild]
  have hagain : (S.contents w).placement parent name data.size = .ok p := by
    refine placement_eq_ok_iff.mpr ⟨?_, ?_⟩
    · rw [accepts, htable, Directory.describes_setChild, map_contents, hmap]
      exact haccepts
    · rw [htable, map_contents, hmap]
      exact place_setChild_empty hplace
  rw [← hsame] at hfits ⊢
  exact write_of_fits hB h hagain hfits

/-- The device after a write and a delete differs from the one before only in what the write
stores. -/
theorem touched_of_differs (hu : S.view u =
      (writeSteps parent (x.table parent) name data p).foldl Step.onImage (S.view v))
    (hplace : place x.map (x.table parent) name data.size = .ok p)
    (hw : S.view w = ((S.contents u).deleteSteps parent p.index).foldl Step.onImage
      { S.view u with map := x.map }) (k : Nat) :
    (S.view w).disk[k]? = (S.view v).disk[k]? ∨
      ∃ step ∈ writeSteps parent (x.table parent) name data p, step.Touches k := by
  by_cases hk : ∃ step ∈ writeSteps parent (x.table parent) name data p, step.Touches k
  · exact .inr hk
  · left
    have hnot : ∀ step ∈ writeSteps parent (x.table parent) name data p, ¬ step.Touches k :=
      fun step hstep htouch => hk ⟨step, hstep, htouch⟩
    have hparent := hnot _ (writeSteps_eq .. ▸ List.mem_append_right _ (List.mem_singleton_self _))
    have hmap := hnot _ (saveMap_mem_writeSteps hplace parent)
    rw [hw, getElem?_foldl_onImage]
    · show (S.view u).disk[k]? = _
      rw [hu, getElem?_foldl_onImage hnot]
    · rw [touches_store] at hparent
      simp only [deleteSteps, List.forall_mem_cons, touches_store]
      exact ⟨hparent, hmap, by simp⟩

end Written

/-- Whatever the map and the tables were, a delete right after a write puts back the map, in memory
and on the device, and the parent table but for the slot used, which is zero; and the same write
then leaves the same map and the same bytes as the first. -/
theorem delete_undoes_write (hB : S.Bounded) (h : S.Working n v.disk) {first : UInt32}
    (hok : (v.write parent name data).outcome = .ok first) :
    let u := (v.write parent name data).volume
    let w := (u.delete parent name).volume
    let t := w.write parent name data
    (u.delete parent name).outcome = .ok () ∧
      w.map = v.map ∧ AllocationMap.decode ((S.contents w).cluster 1) = v.map ∧
      (∃ i : Fin 62, ((S.contents v).child parent i).userAttributes ≠ 0xAA ∧
        ((S.contents u).child parent i).userAttributes = 0xAA ∧
        ((S.contents u).child parent i).name = name ∧
        ∀ (j : Nat) (hj : j < 2048), ((S.contents w).cluster parent)[j] =
          if j / 32 = 2 + i.1 then 0 else ((S.contents v).cluster parent)[j]) ∧
      t.outcome = .ok first ∧ t.volume.map = u.map ∧ S.image t.volume.disk = S.image u.disk := by
  intro u w t
  obtain ⟨p, rfl, hplacement, hfits, hu, hview⟩ := write_whole hB h hok
  obtain ⟨haccepts, hplace⟩ := placement_eq_ok_iff.mp hplacement
  have hdata := isData_of_accepts haccepts
  have hwritten := contents_of_view h hview (inData_writeSteps hplace hdata) hfits
  obtain ⟨hdelete, hw, hwview, hwcontents⟩ := delete_written hB hu haccepts hplace hfits hwritten
  have hcluster : (S.contents w).cluster parent =
      (((S.contents v).table parent).setChild p.index .empty).encode := by
    rw [hwcontents, cluster_saveMap_of_ne _ (isData_ne_mapCluster hdata), cluster_store_self]
  have htable : (S.contents w).table parent =
      ((S.contents v).table parent).setChild p.index .empty := by
    rw [table, hcluster, Directory.decode_encode]
  have hmap : w.map = v.map := congrArg Contents.map hwcontents
  have hchild : (S.contents u).child parent p.index = newEntry name data p := by
    rw [hwritten]
    exact child_applyAll_writeSteps haccepts hplace
  obtain ⟨houtcome, htview⟩ := write_repeated hB hw haccepts hplace hfits htable hmap
  have hviews : S.view t.volume = S.view u := by
    rw [htview, hview]
    refine foldl_onImage_eq ?_ hmap (touched_of_differs hview hplace hwview)
    rw [hwview, size_foldl_onImage]
    show (S.view u).disk.size = _
    rw [hview, size_foldl_onImage]
  have hmaps := congrArg Volume.map hviews
  have hdisks := congrArg Volume.disk hviews
  refine ⟨hdelete, hmap, ?_, ⟨p.index, ?_, ?_, ?_, fun j hj => ?_⟩, houtcome, hmaps, hdisks⟩
  · refine Eq.trans (congrArg AllocationMap.decode ?_) (AllocationMap.decode_encode v.map)
    rw [hwcontents, show (1 : UInt32) = mapCluster from rfl, cluster_saveMap_self]
    rfl
  · rw [child]
    exact Entry.isUsed_eq_false_iff.mp (Directory.isUsed_of_vacancy? (place_spec hplace).2.1)
  · rw [hchild]
    rfl
  · rw [hchild]
    rfl
  · have hold : ((S.contents v).table parent).encode = (S.contents v).cluster parent := by
      rw [table, Directory.encode_decode]
    simp only [hcluster, Directory.getElem_encode_setChild_empty _ _ hj, hold]
    rfl

/-- A first file on a formatted disk in memory, deleted and written again. -/
theorem first_write_undone :
    ∃ v : Volume MemoryDisk,
      let r := v.write rootCluster (.ofParts [65] []) (.ofArray #[1])
      let w := (r.volume.delete rootCluster (.ofParts [65] [])).volume
      let t := w.write rootCluster (.ofParts [65] []) (.ofArray #[1])
      r.outcome = .ok 3 ∧ w.map = v.map ∧
        AllocationMap.decode ((MemoryDisk.storage.contents w).cluster 1) = v.map ∧
        t.outcome = .ok 3 ∧
        MemoryDisk.storage.image t.volume.disk = MemoryDisk.storage.image r.volume.disk := by
  obtain ⟨e, hfresh, -, -⟩ := Session.fresh_eq (MemoryDisk.usable_create (Nat.le_refl 512)) rfl
  obtain ⟨hs, hok⟩ := Session.first_write_ok (MemoryDisk.usable_create (Nat.le_refl 512)) rfl
    hfresh (.ofParts [65] []) (.ofArray #[1]) (by decide)
  have hworking : MemoryDisk.storage.Working (MemoryDisk.storage.sectors e) e :=
    ⟨hs.usable.ready, rfl, hs.writes⟩
  obtain ⟨-, hmap, hsaved, -, hagain, -, himage⟩ :=
    delete_undoes_write (v := ⟨e, formatted⟩) MemoryDisk.bounded_storage hworking hok
  exact ⟨⟨e, formatted⟩, hok, hmap, hsaved, hagain, himage⟩

end Storage

end ClusterFs
