import ClusterFs.Proofs.Medium
import ClusterFs.Proofs.Operations
import ClusterFs.Proofs.Tables

/-!
What a write and a delete leave alone, on any device and on any volume. However damaged the map and
the tables are, and wherever the device fails, a request reaches only the saved map, one child of
the parent table and clusters that were free, and in the map only entries that were empty or on the
chain of the deleted entry.
-/
namespace ClusterFs
open AllocationMap Volume

theorem Directory.getElem_encode_setChild (t : Directory) (i : Fin 62) (e : Entry) {j : Nat}
    (hj : j < 2048) (hslot : j / 32 ≠ slotOf i) : (t.setChild i e).encode[j] = t.encode[j] := by
  have hlt : j / 32 < 64 := by omega
  have hindex : 32 * (j / 32) + j % 32 = j := Nat.div_add_mod j 32
  have hnew := getElem_encode (t.setChild i e) hlt (Nat.mod_lt j (by decide))
  have hold := getElem_encode t hlt (Nat.mod_lt j (by decide))
  have hsame : (t.setChild i e).slot (j / 32) = t.slot (j / 32) := by
    unfold slot
    split_ifs with hself hreserved
    · rfl
    · rfl
    · -- a child slot other than the changed one
      have hne : i.1 ≠ j / 32 - firstChildSlot := by
        simp only [slotOf, firstChildSlot] at hslot ⊢
        omega
      simp [setChild, Vector.getD, hne]
  simp only [hindex] at hnew hold
  rw [hnew, hold, hsame]

theorem AllocationMap.getElem_encode_congr {m n : AllocationMap} {c : UInt32}
    (h : n.get? c = m.get? c) {j : Nat} (hj : j < 2048) (hc : j / 4 = c.toNat) :
    n.encode[j] = m.encode[j] := by
  have hlt : j / 4 < 512 := by omega
  simp only [get?, ← hc, Vector.getElem?_eq_getElem hlt, Option.some.injEq] at h
  simp only [encode, Vector.getElem_ofFn, h]

/-- Whether a byte of a device lies in a slot of the table at a cluster. -/
def InSlot (c : UInt32) (slot k : Nat) : Prop :=
  2048 * c.toNat + 32 * slot ≤ k ∧ k < 2048 * c.toNat + 32 * slot + 32

theorem InSlot.inCluster {c : UInt32} {slot k : Nat} (h : InSlot c slot k) (hslot : slot < 64) :
    InCluster c k := by
  unfold InSlot at h
  unfold InCluster
  omega

namespace Medium

variable {D : Type} [BlockDevice D] {M : Medium D} {u v w : Volume D} {k : Nat} {b : UInt8}
  {parent : UInt32} {name : ShortName} {i : Fin 62} {steps : List Step}
  {filled relinked : UInt32 → Prop} {m : AllocationMap}

/-- A byte of the device after a write of a cluster is the old one, or lies in the cluster and was
written. -/
theorem byte_writeCluster (M : Medium D) (d : D) (c : UInt32) (bytes : Cluster) (k : Nat) :
    (M.image (writeCluster d c bytes).1)[k]? = (M.image d)[k]? ∨
      ∃ j, ∃ hj : j < 2048, k = clusterLba c * sectorSize + j ∧
        (M.image (writeCluster d c bytes).1)[k]? = some bytes[j] := by
  refine (M.byte_write d bytes.toArray (clusterLba c) sectorsPerCluster k).imp_right ?_
  rintro ⟨hlow, hhigh, hbyte⟩
  have hj : k - clusterLba c * sectorSize < 2048 := by
    simp only [sectorsPerCluster, sectorSize] at hlow hhigh ⊢
    omega
  refine ⟨k - clusterLba c * sectorSize, hj, by omega, hbyte.trans ?_⟩
  rw [Array.getElem?_eq_getElem (by rwa [Vector.size_toArray]), Vector.getElem_toArray]

/-- Whether a step leaves the byte `b` at a place, as long as the map in memory is `m` but for
certain entries; a link changes one of these. -/
def Keeps (relinked : UInt32 → Prop) (m : AllocationMap) (k : Nat) (b : UInt8) : Step → Prop
  | .link c _ => relinked c
  | .saveMap => ∀ n : AllocationMap, (∀ c, ¬ relinked c → n.get? c = m.get? c) →
      ∀ j (hj : j < 2048), k = clusterLba mapCluster * sectorSize + j → n.encode[j] = b
  | .store c bytes => ∀ j (hj : j < 2048), k = clusterLba c * sectorSize + j → bytes[j] = b

theorem byte_apply {step : Step} (hstep : Keeps relinked m k b step)
    (hmap : ∀ c, ¬ relinked c → v.map.get? c = m.get? c) (hb : (M.image v.disk)[k]? = some b) :
    (∀ c, ¬ relinked c → (step.apply v).1.map.get? c = m.get? c) ∧
      (M.image (step.apply v).1.disk)[k]? = some b := by
  cases step with
  | link c next =>
    refine ⟨fun d hd => ?_, hb⟩
    have hne : d ≠ c := fun h => hd (h ▸ hstep)
    exact (get?_set_of_ne v.map next hne).trans (hmap d hd)
  | saveMap =>
    refine ⟨hmap, ?_⟩
    rcases M.byte_writeCluster v.disk mapCluster v.map.encode k with h | ⟨j, hj, hk, h⟩
    · exact h.trans hb
    · exact h.trans (congrArg some (hstep v.map hmap j hj hk))
  | store c bytes =>
    refine ⟨hmap, ?_⟩
    rcases M.byte_writeCluster v.disk c bytes k with h | ⟨j, hj, hk, h⟩
    · exact h.trans hb
    · exact h.trans (congrArg some (hstep j hj hk))

theorem byte_perform (hsteps : ∀ step ∈ steps, Keeps relinked m k b step)
    (hmap : ∀ c, ¬ relinked c → v.map.get? c = m.get? c) (hb : (M.image v.disk)[k]? = some b) :
    (M.image (v.perform steps).1.disk)[k]? = some b :=
  (perform_invariant (motive := fun u => (∀ c, ¬ relinked c → u.map.get? c = m.get? c) ∧
    (M.image u.disk)[k]? = some b)
    (fun step hstep _ hu => byte_apply (hsteps step hstep) hu.1 hu.2) ⟨hmap, hb⟩).2

/-- Steps that keep a byte if it is there leave the place as it was. -/
theorem getElem?_perform (himage : M.image u.disk = M.image v.disk)
    (hmap : ∀ c, ¬ relinked c → u.map.get? c = m.get? c)
    (hsteps : ∀ b, (M.image v.disk)[k]? = some b → ∀ step ∈ steps, Keeps relinked m k b step) :
    (M.image (u.perform steps).1.disk)[k]? = (M.image v.disk)[k]? := by
  cases hb : (M.image v.disk)[k]? with
  | some b => exact byte_perform (hsteps b hb) hmap (himage ▸ hb)
  | none =>
    rw [Array.getElem?_eq_none_iff] at hb ⊢
    rwa [size_perform, himage]

/-- What a change of one child of a directory leaves as it was, when it fills certain clusters and
changes certain entries of the map. -/
structure Framed (M : Medium D) (v w : Volume D) (parent : UInt32) (i : Fin 62)
    (filled relinked : UInt32 → Prop) : Prop where
  size : (M.image w.disk).size = (M.image v.disk).size
  byte : ∀ k, ¬ InCluster 1 k → ¬ InSlot parent (2 + i.1) k →
    (∀ c, filled c → ¬ InCluster c k) → (M.image w.disk)[k]? = (M.image v.disk)[k]?
  head : ∀ k, InSlot parent 0 k ∨ InSlot parent 1 k →
    (M.image w.disk)[k]? = (M.image v.disk)[k]?
  entry : ∀ c, ¬ relinked c → w.map.get? c = v.map.get? c
  saved : M.savedMap v = v.map →
    ∀ c, ¬ relinked c → (M.savedMap w).get? c = (M.savedMap v).get? c

/-- The steps of such a change. -/
def Reaches (parent : UInt32) (table : Directory) (i : Fin 62) (filled relinked : UInt32 → Prop) :
    Step → Prop
  | .link c _ => relinked c
  | .saveMap => True
  | .store c bytes => filled c ∨ c = parent ∧ ∃ e, bytes = (table.setChild i e).encode

theorem Reaches.links {table : Directory} {step : Step}
    (h : Reaches parent table i filled relinked step) : step.Links relinked := by
  cases step with
  | link c next => exact h
  | saveMap => trivial
  | store c bytes => trivial

theorem getElem_cluster {c : UInt32} {j : Nat} (hj : j < 2048)
    (hb : (M.image v.disk)[clusterLba c * sectorSize + j]? = some b) :
    ((M.contents v).cluster c)[j] = b := by
  simp [contents, Contents.ofImage, hb]

theorem inCluster_of_lt {c : UInt32} {j : Nat} (hj : j < 2048) :
    InCluster c (clusterLba c * sectorSize + j) :=
  inCluster_iff.mpr ⟨Nat.le_add_right _ _, Nat.add_lt_add_left hj _⟩

theorem Reaches.keeps {step : Step}
    (h : Reaches parent ((M.contents v).table parent) i filled relinked step)
    (hb : (M.image v.disk)[k]? = some b) (hmap : ¬ InCluster mapCluster k)
    (hslot : ¬ InSlot parent (Directory.slotOf i) k) (hfilled : ∀ c, filled c → ¬ InCluster c k) :
    Keeps relinked m k b step := by
  cases step with
  | link c next => exact h
  | saveMap =>
    rintro n - j hj rfl
    exact absurd (inCluster_of_lt hj) hmap
  | store c bytes =>
    rintro j hj rfl
    rcases h with h | ⟨rfl, e, rfl⟩
    · exact absurd (inCluster_of_lt hj) (hfilled c h)
    · have hother : j / 32 ≠ Directory.slotOf i := by
        intro hsame
        apply hslot
        rw [InSlot, ← hsame, clusterLba_mul_sectorSize]
        omega
      rw [Directory.getElem_encode_setChild _ i e hj hother]
      simp only [Contents.table, Directory.encode_decode]
      exact getElem_cluster hj hb

/-- On a device whose saved map is that in memory, the saved entries that are not to change are
saved again as they are. -/
theorem Reaches.keeps_saved {step : Step} {table : Directory} {c : UInt32}
    (h : Reaches parent table i filled relinked step) (hsaved : M.savedMap v = v.map)
    (hc : ¬ relinked c) (hparent : parent ≠ mapCluster) (hfilled : ¬ filled mapCluster) {j : Nat}
    (hj : j < 2048) (hentry : j / 4 = c.toNat)
    (hb : (M.image v.disk)[clusterLba mapCluster * sectorSize + j]? = some b) :
    Keeps relinked v.map (clusterLba mapCluster * sectorSize + j) b step := by
  cases step with
  | link c next => exact h
  | saveMap =>
    intro n hn l hl hk
    obtain rfl : j = l := Nat.add_left_cancel hk
    rw [AllocationMap.getElem_encode_congr (hn c hc) hj hentry, ← hsaved, savedMap,
      AllocationMap.encode_decode]
    exact getElem_cluster hj hb
  | store d bytes =>
    intro l hl hk
    have hin : InCluster d (clusterLba mapCluster * sectorSize + j) := by
      rw [hk]
      exact inCluster_of_lt hl
    obtain rfl := (inCluster_of_lt hj).eq hin
    rcases h with h | ⟨h, -⟩
    · exact absurd h hfilled
    · exact absurd h.symm hparent

theorem savedMap_get?_congr {c : UInt32}
    (h : ∀ j < 2048, j / 4 = c.toNat →
      (M.image w.disk)[clusterLba mapCluster * sectorSize + j]? =
        (M.image v.disk)[clusterLba mapCluster * sectorSize + j]?) :
    (M.savedMap w).get? c = (M.savedMap v).get? c := by
  by_cases hc : c.toNat < 512
  · have hbyte {l : Nat} (hl : l < 4) : ((M.contents w).cluster mapCluster)[4 * c.toNat + l] =
        ((M.contents v).cluster mapCluster)[4 * c.toNat + l] := by
      have hsame := h (4 * c.toNat + l) (by omega) (by omega)
      simp [contents, Contents.ofImage, hsame]
    have hfirst := hbyte (l := 0) (by decide)
    simp only [Nat.add_zero] at hfirst
    simp only [savedMap, get?, AllocationMap.decode, Vector.getElem?_eq_getElem hc,
      Vector.getElem_ofFn, LittleEndian.word32At, hfirst, hbyte (l := 1) (by decide),
      hbyte (l := 2) (by decide), hbyte (l := 3) (by decide)]
  · simp only [get?, Vector.getElem?_eq_none (Nat.not_lt.mp hc)]

theorem framed_perform (hdata : isData parent = true) (hparent : ¬ filled parent)
    (hfilled : ∀ c, filled c → isData c = true) (himage : M.image u.disk = M.image v.disk)
    (hmap : ∀ c, ¬ relinked c → u.map.get? c = v.map.get? c)
    (hsteps : ∀ step ∈ steps,
      Reaches parent ((M.contents v).table parent) i filled relinked step) :
    Framed M v (u.perform steps).1 parent i filled relinked := by
  have hbyte (k : Nat) (hout : ¬ InCluster mapCluster k)
      (hslot : ¬ InSlot parent (Directory.slotOf i) k) (hfree : ∀ c, filled c → ¬ InCluster c k) :
      (M.image (u.perform steps).1.disk)[k]? = (M.image v.disk)[k]? :=
    getElem?_perform himage hmap fun b hb step hstep =>
      (hsteps step hstep).keeps hb hout hslot hfree
  constructor
  · rw [size_perform, himage]
  · exact hbyte
  · intro k hk
    have hin : InCluster parent k := hk.elim (·.inCluster (by decide)) (·.inCluster (by decide))
    refine hbyte k (fun hout => ?_) (fun hslot => ?_) fun c hc hout => ?_
    · exact isData_ne_mapCluster hdata (hout.eq hin)
    · simp only [InSlot, Directory.slotOf, firstChildSlot] at hk hslot
      omega
    · exact hparent (hout.eq hin ▸ hc)
  · intro c hc
    rw [get?_perform u (fun step hstep => (hsteps step hstep).links) hc, hmap c hc]
  · intro hsaved c hc
    refine savedMap_get?_congr fun j hj hentry => getElem?_perform himage hmap ?_
    intro b hb step hstep
    exact (hsteps step hstep).keeps_saved hsaved hc (isData_ne_mapCluster hdata)
      (fun h => absurd (hfilled _ h) (by decide)) hj hentry hb

theorem reaches_writeSteps {map : AllocationMap} {table : Directory} {data : Payload}
    {p : Placement} (h : place map table name data.size = .ok p)
    (hfilled : ∀ c ∈ p.clusters, filled c) (hrelinked : ∀ c ∈ p.clusters, relinked c) :
    ∀ step ∈ writeSteps parent table name data p,
      Reaches parent table p.index filled relinked step := by
  rw [writeSteps_eq]
  intro step hstep
  rcases List.mem_append.mp hstep with hstep | hstep
  · have hwithin := within_contentSteps h step hstep
    cases step with
    | link c next => exact hrelinked c hwithin
    | saveMap => trivial
    | store c bytes => exact .inl (hfilled c hwithin)
  · rw [List.mem_singleton.mp hstep]
    exact .inr ⟨rfl, _, rfl⟩

/-- A write leaves the volume as it was, or takes an unused child of the parent and free clusters.
A delete leaves the volume as it was, or takes a used child of the name and empties entries on its
chain. -/
theorem requests_framed (M : Medium D) (v : Volume D) (parent : UInt32) (name : ShortName) :
    (∀ data, M.Same v (v.write parent name data).volume ∨
      ∃ i, ((M.contents v).child parent i).isUsed = false ∧
        Framed M v (v.write parent name data).volume parent i v.Free v.Free) ∧
    (M.Same v (v.delete parent name).volume ∨
      ∃ i, ((M.contents v).child parent i).isUsed = true ∧
        ((M.contents v).child parent i).name = name ∧
        Framed M v (v.delete parent name).volume parent i (fun _ => False)
          (· ∈ v.map.chain ((M.contents v).child parent i).cluster)) := by
  have hopen := M.same_openDirectory v parent
  refine ⟨fun data => ?_, ?_⟩
  · rcases v.write_cases parent name data with ⟨e, hwrite⟩ | ⟨table, p, htable, hplace, hw, -⟩
    · exact .inl (hwrite ▸ hopen)
    · obtain ⟨hterminal, rfl⟩ := M.openDirectory_ok htable
      obtain ⟨hdata, hend⟩ := isTerminal_iff.mp hterminal
      obtain ⟨-, hvacancy, -, -⟩ := place_spec hplace
      have hfree := (placement_clusters hplace).2.2.1
      refine .inr ⟨p.index, ?_, ?_⟩
      · rw [Contents.child, Directory.isUsed_of_vacancy? hvacancy]
      · rw [hw]
        refine framed_perform hdata (fun h => ?_) (fun c hc => hc.1) hopen.image
          (fun c _ => congrArg (·.get? c) hopen.map) (reaches_writeSteps hplace hfree hfree)
        exact absurd (Option.some.inj (hend.symm.trans h.2)) (by decide)
  · rcases v.delete_cases parent name with ⟨e, hdelete⟩ | ⟨table, i, htable, hfind, hrest⟩
    · exact .inl (hdelete ▸ hopen)
    · obtain ⟨hterminal, rfl⟩ := M.openDirectory_ok htable
      have hdata := (isTerminal_iff.mp hterminal).1
      have hlook := hopen.trans
        (M.same_countOrphans _ (((M.contents v).table parent).children.get i))
      rcases hrest with ⟨e, -, hdelete⟩ | ⟨hw, -⟩
      · exact .inl (hdelete ▸ hlook)
      · obtain ⟨hused, hname⟩ := (Directory.find?_eq_some_iff.mp hfind).1
        refine .inr ⟨i, ?_⟩
        simp only [Contents.child]
        refine ⟨hused, hname, ?_⟩
        rw [hw]
        refine framed_perform hdata id (fun _ h => h.elim) hlook.image
          (fun c hc => get?_freeChain_of_notMem_chain hc) ?_
        simp only [List.forall_mem_cons]
        exact ⟨.inr ⟨rfl, _, rfl⟩, trivial, by simp⟩

end Medium

end ClusterFs
