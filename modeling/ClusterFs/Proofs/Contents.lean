import ClusterFs.Proofs.Chain
import ClusterFs.Proofs.RoundTrip
import ClusterFs.Proofs.Storage
import ClusterFs.Volume.Write

/-!
The contents of a volume: sector 0 and the clusters on its device, and the map in memory. Reading
delivers them, and a list of steps changes them one step after another; a device that stops writing
leaves the effect of a first part of the list.
-/
namespace ClusterFs

structure Contents where
  boot : Sector
  cluster : UInt32 → Cluster
  map : AllocationMap

namespace Contents

-- Irreducible, since a comparison of terms would otherwise compute with the 2048 bytes of a table.
/-- The table stored at a cluster, and its children. -/
@[irreducible] def table (x : Contents) (c : UInt32) : Directory := Directory.decode (x.cluster c)
@[irreducible] def child (x : Contents) (c : UInt32) (i : Fin 62) : Entry :=
  (x.table c).children.get i

/-- Whether a cluster passes as a directory. -/
def accepts (x : Contents) (c : UInt32) : Bool := x.map.isTerminal c && (x.table c).describes c

/-- The bytes of clusters one after another. -/
def bytes (x : Contents) : List UInt32 → Array UInt8
  | [] => #[]
  | c :: rest => (x.cluster c).toArray ++ x.bytes rest

/-- The contents with another map in memory; `reload` takes the map from the device. -/
def withMap (x : Contents) (map : AllocationMap) : Contents := { x with map }
@[irreducible] def reload (x : Contents) : Contents :=
  x.withMap (.decode (x.cluster mapCluster))

def store (x : Contents) (c : UInt32) (bytes : Cluster) : Contents :=
  { x with cluster := Function.update x.cluster c bytes }

def saveMap (x : Contents) : Contents := x.store mapCluster x.map.encode

def apply (x : Contents) : Volume.Step → Contents
  | .link c next => x.withMap (x.map.set c next)
  | .saveMap => x.saveMap
  | .store c bytes => x.store c bytes

def applyAll (x : Contents) (steps : List Volume.Step) : Contents := steps.foldl apply x

@[simp] theorem boot_withMap (x : Contents) (m : AllocationMap) : (x.withMap m).boot = x.boot := rfl
@[simp] theorem cluster_withMap (x : Contents) (m : AllocationMap) :
    (x.withMap m).cluster = x.cluster := rfl
@[simp] theorem map_withMap (x : Contents) (m : AllocationMap) : (x.withMap m).map = m := rfl
@[simp] theorem boot_reload (x : Contents) : x.reload.boot = x.boot := by
  rw [reload, boot_withMap]
@[simp] theorem cluster_reload (x : Contents) : x.reload.cluster = x.cluster := by
  rw [reload, cluster_withMap]
@[simp] theorem map_reload (x : Contents) : x.reload.map = .decode (x.cluster mapCluster) := by
  rw [reload, map_withMap]
@[simp] theorem reload_withMap (x : Contents) (m : AllocationMap) :
    (x.withMap m).reload = x.reload := by
  rw [reload, reload, cluster_withMap]
  rfl
@[simp] theorem map_saveMap (x : Contents) : x.saveMap.map = x.map := rfl

@[simp] theorem cluster_store_self (x : Contents) (c : UInt32) (b : Cluster) :
    (x.store c b).cluster c = b :=
  Function.update_self ..

theorem cluster_store_of_ne (x : Contents) {c d : UInt32} (b : Cluster) (h : d ≠ c) :
    (x.store c b).cluster d = x.cluster d :=
  Function.update_of_ne h ..

@[simp] theorem cluster_saveMap_self (x : Contents) : x.saveMap.cluster mapCluster = x.map.encode :=
  cluster_store_self ..

theorem cluster_saveMap_of_ne (x : Contents) {d : UInt32} (h : d ≠ mapCluster) :
    x.saveMap.cluster d = x.cluster d :=
  cluster_store_of_ne _ _ h

@[simp] theorem applyAll_nil (x : Contents) : x.applyAll [] = x := rfl

theorem applyAll_cons (x : Contents) (step : Volume.Step) (steps : List Volume.Step) :
    x.applyAll (step :: steps) = (x.apply step).applyAll steps := rfl

theorem applyAll_append (x : Contents) (steps rest : List Volume.Step) :
    x.applyAll (steps ++ rest) = (x.applyAll steps).applyAll rest :=
  List.foldl_append

end Contents

/-- Whether a step links and stores certain clusters only. -/
def Volume.Step.Within (P : UInt32 → Prop) : Volume.Step → Prop
  | .link c _ => P c
  | .saveMap => True
  | .store c _ => P c

/-- The writes to the device that a step, or a list of steps, takes. -/
def Volume.Step.stores : Volume.Step → Nat
  | .link _ _ => 0
  | .saveMap | .store _ _ => 1

def Volume.Step.storesAll : List Volume.Step → Nat
  | [] => 0
  | step :: rest => step.stores + storesAll rest

theorem Volume.Step.Within.mono {P Q : UInt32 → Prop} (h : ∀ c, P c → Q c) {step : Volume.Step}
    (hstep : step.Within P) : step.Within Q := by
  cases step with
  | link c next => exact h c hstep
  | saveMap => trivial
  | store c bytes => exact h c hstep

namespace Contents

/-- Two contents that differ at most in certain clusters, in their entries and in the saved map. -/
structure AgreeOff (P : UInt32 → Prop) (x y : Contents) : Prop where
  boot : y.boot = x.boot
  entry : ∀ c, ¬ P c → y.map.get? c = x.map.get? c
  cluster : ∀ c, ¬ P c → c ≠ mapCluster → y.cluster c = x.cluster c

/-- The map on the device is the map of `x`, but for the entries of certain clusters. -/
def SavedOff (P : UInt32 → Prop) (x y : Contents) : Prop :=
  ∃ m : AllocationMap, y.cluster mapCluster = m.encode ∧ ∀ c, ¬ P c → m.get? c = x.map.get? c

variable {P : UInt32 → Prop} {x y z : Contents}

theorem AgreeOff.refl (P : UInt32 → Prop) (x : Contents) : AgreeOff P x x :=
  ⟨rfl, fun _ _ => rfl, fun _ _ _ => rfl⟩

theorem AgreeOff.trans (h : AgreeOff P x y) (h' : AgreeOff P y z) : AgreeOff P x z where
  boot := h'.boot.trans h.boot
  entry c hc := (h'.entry c hc).trans (h.entry c hc)
  cluster c hc hne := (h'.cluster c hc hne).trans (h.cluster c hc hne)

theorem AgreeOff.table (h : AgreeOff P x y) {c : UInt32} (hc : ¬ P c) (hne : c ≠ mapCluster) :
    y.table c = x.table c := by
  simp only [Contents.table, h.cluster c hc hne]

/-- A step changes no more than the clusters it is about. -/
theorem agreeOff_apply (hP : ∀ c, P c → AllocationMap.isData c = true) {step : Volume.Step}
    (hstep : step.Within P) (x : Contents) : AgreeOff P x (x.apply step) := by
  cases step with
  | link c next =>
    refine ⟨rfl, fun d hd => ?_, fun _ _ _ => rfl⟩
    have hne : d ≠ c := fun h => hd (h ▸ hstep)
    simp only [apply, map_withMap, AllocationMap.get?_set _ _ _ (hP c hstep), if_neg hne]
  | saveMap => exact ⟨rfl, fun _ _ => rfl, fun d _ hne => cluster_saveMap_of_ne x hne⟩
  | store c bytes =>
    refine ⟨rfl, fun _ _ => rfl, fun d hd _ => ?_⟩
    exact cluster_store_of_ne x bytes fun h => hd (h ▸ hstep)

theorem savedOff_apply (hP : ∀ c, P c → AllocationMap.isData c = true) {step : Volume.Step}
    (hstep : step.Within P) (hagree : AgreeOff P x y) (hsaved : SavedOff P x y) :
    SavedOff P x (y.apply step) := by
  obtain ⟨m, hm, hentry⟩ := hsaved
  cases step with
  | link c next => exact ⟨m, hm, hentry⟩
  | saveMap => exact ⟨y.map, cluster_saveMap_self y, hagree.entry⟩
  | store c bytes =>
    refine ⟨m, ?_, hentry⟩
    rw [← hm]
    exact cluster_store_of_ne y bytes (AllocationMap.isData_ne_mapCluster (hP c hstep)).symm

theorem agreeOff_applyAll (hP : ∀ c, P c → AllocationMap.isData c = true)
    {steps : List Volume.Step} (hsteps : ∀ step ∈ steps, step.Within P) (x : Contents) :
    AgreeOff P x (x.applyAll steps) := by
  induction steps generalizing x with
  | nil => exact .refl P x
  | cons step steps ih =>
    have hstep := agreeOff_apply hP (hsteps step (by simp)) x
    exact hstep.trans (ih (fun s hs => hsteps s (List.mem_cons_of_mem _ hs)) (x.apply step))

theorem savedOff_applyAll (hP : ∀ c, P c → AllocationMap.isData c = true)
    {steps : List Volume.Step} (hsteps : ∀ step ∈ steps, step.Within P)
    (hagree : AgreeOff P x y) (hsaved : SavedOff P x y) : SavedOff P x (y.applyAll steps) := by
  induction steps generalizing y with
  | nil => exact hsaved
  | cons step steps ih =>
    have hstep := hsteps step (by simp)
    exact ih (fun s hs => hsteps s (List.mem_cons_of_mem _ hs))
      (hagree.trans (agreeOff_apply hP hstep y)) (savedOff_apply hP hstep hagree hsaved)

/-- Whatever was saved last, the map taken from the device differs only there. -/
theorem agreeOff_reload (hagree : AgreeOff P x y) (hsaved : SavedOff P x y) :
    AgreeOff P x y.reload ∧ y.reload.cluster mapCluster = y.reload.map.encode := by
  obtain ⟨m, hm, hentry⟩ := hsaved
  have hmap : y.reload.map = m := by
    rw [map_reload, hm, AllocationMap.decode_encode]
  constructor
  · constructor
    · rw [boot_reload, hagree.boot]
    · intro c hc
      rw [hmap, hentry c hc]
    · intro c hc hne
      rw [cluster_reload, hagree.cluster c hc hne]
  · rw [hmap, ← hm, cluster_reload]

/-- With the map saved, taking it from the device changes nothing. -/
theorem reload_eq (hsaved : x.cluster mapCluster = x.map.encode) : x.reload = x := by
  simp only [reload, withMap, hsaved, AllocationMap.decode_encode]

end Contents

theorem clusterLba_mul_sectorSize (c : UInt32) : clusterLba c * sectorSize = 2048 * c.toNat := by
  simp only [clusterLba, sectorsPerCluster, sectorSize]
  omega

theorem clusters_disjoint {c d : UInt32} (h : d ≠ c) :
    clusterLba d * sectorSize + 2048 ≤ clusterLba c * sectorSize ∨
      clusterLba c * sectorSize + 2048 ≤ clusterLba d * sectorSize := by
  have hne : d.toNat ≠ c.toNat := fun he => h (UInt32.toNat_inj.mp he)
  rw [clusterLba_mul_sectorSize, clusterLba_mul_sectorSize]
  omega

/-- Whether a byte of a device lies in a cluster. -/
def InCluster (c : UInt32) (k : Nat) : Prop := 2048 * c.toNat ≤ k ∧ k < 2048 * c.toNat + 2048

theorem inCluster_iff {c : UInt32} {k : Nat} :
    InCluster c k ↔ clusterLba c * sectorSize ≤ k ∧ k < clusterLba c * sectorSize + 2048 := by
  rw [clusterLba_mul_sectorSize]
  exact Iff.rfl

theorem InCluster.eq {c d : UInt32} {k : Nat} (hc : InCluster c k) (hd : InCluster d k) :
    d = c := by
  obtain ⟨hlow, hhigh⟩ := hc
  obtain ⟨hlow', hhigh'⟩ := hd
  exact UInt32.toNat_inj.mp (by omega)

namespace Contents

/-- The contents of a volume with the given bytes on its device. -/
def ofImage (image : Image) (map : AllocationMap) : Contents where
  boot := Image.window 512 image 0
  cluster c := Image.window 2048 image (clusterLba c * sectorSize)
  map := map

/-- Bytes that are put in one cluster change that cluster alone. -/
theorem ofImage_patch {image : Image} {c : UInt32} (map : AllocationMap) (bytes : Cluster)
    (hpos : 0 < c.toNat) (hsize : clusterLba c * sectorSize + 2048 ≤ image.size) :
    ofImage (Image.patch image (clusterLba c * sectorSize) bytes.toArray) map =
      (ofImage image map).store c bytes := by
  have hboot : 0 + 512 ≤ clusterLba c * sectorSize := by
    rw [clusterLba_mul_sectorSize]
    omega
  simp only [ofImage, store, Contents.mk.injEq, and_true]
  refine ⟨Image.window_patch_of_disjoint _ _ (.inl hboot), ?_⟩
  funext d
  by_cases hd : d = c
  · subst hd
    rw [Function.update_self, Image.window_patch _ _ hsize]
  · rw [Function.update_of_ne hd, Image.window_patch_of_disjoint]
    rw [Vector.size_toArray]
    exact clusters_disjoint hd

end Contents

namespace Storage

variable {D : Type} [BlockDevice D] (S : Storage D)

/-- A ready device of at least 512 clusters. -/
structure Usable (d : D) : Prop where
  ready : S.Ready d
  sectors : 2048 ≤ S.sectors d

/-- What reading leaves of a device. -/
structure Unchanged (d e : D) : Prop where
  usable : S.Usable e
  image : S.image e = S.image d
  writesLeft : S.writesLeft e = S.writesLeft d

def contents (v : Volume D) : Contents where
  boot := Image.window 512 (S.image v.disk) 0
  cluster c := Image.window 2048 (S.image v.disk) (clusterLba c * sectorSize)
  map := v.map

variable {S}

theorem contents_eq (v : Volume D) : S.contents v = .ofImage (S.image v.disk) v.map := rfl

theorem Kept.contents {d e : D} (h : S.Kept d e) (map : AllocationMap) :
    S.contents ⟨e, map⟩ = S.contents ⟨d, map⟩ := by
  simp only [Storage.contents, h.image]

/-- A device that reading leaves stays usable. -/
theorem Kept.unchanged {d e : D} (h : S.Kept d e) (hd : S.Usable d) : S.Unchanged d e :=
  ⟨⟨h.ready, h.sectors ▸ hd.sectors⟩, h.image, h.writesLeft⟩

@[simp] theorem map_contents (v : Volume D) : (S.contents v).map = v.map := rfl

theorem Unchanged.refl {d : D} (h : S.Usable d) : S.Unchanged d d := ⟨h, rfl, rfl⟩

theorem Unchanged.contents {d e : D} (h : S.Unchanged d e) (map : AllocationMap) :
    S.contents ⟨e, map⟩ = S.contents ⟨d, map⟩ := by
  simp only [Storage.contents, h.image]

/-- Whether a cluster lies on every usable device. -/
def Covers (S : Storage D) (c : UInt32) : Prop :=
  ∀ d, S.Usable d → clusterLba c + sectorsPerCluster ≤ S.sectors d

theorem covers_of_lt {c : UInt32} (hc : c.toNat < 512) : S.Covers c := by
  intro d hd
  have hs := hd.sectors
  simp only [clusterLba, sectorsPerCluster]
  omega

theorem Has.cluster_le {d : D} {c : UInt32} (hc : S.Has d c) (h : S.Ready d) :
    clusterLba c * sectorSize + 2048 ≤ (S.image d).size := by
  have hlast := Nat.mul_le_mul_right sectorSize hc
  rw [Nat.add_mul] at hlast
  exact hlast.trans (S.sectors_le h)

theorem Usable.cluster_le {d : D} (h : S.Usable d) {c : UInt32} (hc : S.Covers c) :
    clusterLba c * sectorSize + 2048 ≤ (S.image d).size :=
  Has.cluster_le (hc d h) h.ready

/-- Reading a cluster of the device delivers its bytes. -/
theorem readCluster_kept {v : Volume D} (h : S.Ready v.disk) {c : UInt32}
    (hc : S.Has v.disk c) :
    ∃ d, BlockDevice.read v.disk (clusterLba c) sectorsPerCluster clusterSize =
        (d, ⟨((S.contents v).cluster c).toArray, .ok ()⟩) ∧ S.Kept v.disk d := by
  have hroom : sectorsPerCluster * sectorSize ≤ clusterSize := by decide
  obtain ⟨d, hread, hready, himage, hsectors, hleft⟩ := S.read_eq h hc hroom
  refine ⟨d, ?_, hready, himage, hsectors, hleft⟩
  rw [hread]
  simp only [contents, Image.toArray_window _ (hc.cluster_le h)]
  rfl

theorem readCluster_eq {v : Volume D} (h : S.Usable v.disk) {c : UInt32} (hc : S.Covers c) :
    ∃ d, BlockDevice.read v.disk (clusterLba c) sectorsPerCluster clusterSize =
        (d, ⟨((S.contents v).cluster c).toArray, .ok ()⟩) ∧ S.Unchanged v.disk d := by
  obtain ⟨d, hread, hd⟩ := readCluster_kept h.ready (hc _ h)
  exact ⟨d, hread, hd.unchanged h⟩

/-- Storing a cluster replaces its bytes, unless the device has stopped writing. -/
theorem writeCluster_image {d : D} (h : S.Ready d) {c : UInt32} (hc : S.Has d c)
    (bytes : Cluster) :
    ∃ e, S.Ready e ∧ S.sectors e = S.sectors d ∧
      (S.writesLeft d ≠ some 0 ∧ writeCluster d c bytes = (e, .ok ()) ∧
          S.image e = Image.patch (S.image d) (clusterLba c * sectorSize) bytes.toArray ∧
          S.writesLeft e = (S.writesLeft d).map (· - 1) ∨
        S.writesLeft d = some 0 ∧ writeCluster d c bytes = (e, .error .fault) ∧
          S.image e = S.image d ∧ S.writesLeft e = some 0) := by
  have hsize : bytes.toArray.size = sectorsPerCluster * sectorSize := bytes.size_toArray
  by_cases hleft : S.writesLeft d = some 0
  · obtain ⟨e, hwrite, hready, himage, hsectors, hleft'⟩ := S.write_fault h hc hsize hleft
    exact ⟨e, hready, hsectors, .inr ⟨hleft, hwrite, himage, hleft'⟩⟩
  · obtain ⟨e, hwrite, hready, himage, hsectors, hleft'⟩ := S.write_eq h hc hsize hleft
    exact ⟨e, hready, hsectors, .inl ⟨hleft, hwrite, himage, hleft'⟩⟩

/-- Storing a cluster changes that cluster alone, unless the device has stopped writing. -/
theorem writeCluster_eq {v : Volume D} (h : S.Usable v.disk) {c : UInt32} (hpos : 0 < c.toNat)
    (hc : c.toNat < 512) (bytes : Cluster) :
    ∃ d, S.Usable d ∧
      (S.writesLeft v.disk ≠ some 0 ∧ writeCluster v.disk c bytes = (d, .ok ()) ∧
          S.contents ⟨d, v.map⟩ = (S.contents v).store c bytes ∧
          S.writesLeft d = (S.writesLeft v.disk).map (· - 1) ∨
        S.writesLeft v.disk = some 0 ∧ writeCluster v.disk c bytes = (d, .error .fault) ∧
          S.contents ⟨d, v.map⟩ = S.contents v ∧ S.writesLeft d = some 0) := by
  have hhas : S.Has v.disk c := covers_of_lt hc _ h
  obtain ⟨d, hready, hsectors, hend⟩ := writeCluster_image h.ready hhas bytes
  refine ⟨d, ⟨hready, hsectors ▸ h.sectors⟩, hend.imp ?_ ?_⟩
  · rintro ⟨hleft, hwrite, himage, hleft'⟩
    refine ⟨hleft, hwrite, ?_, hleft'⟩
    rw [contents_eq, contents_eq, himage]
    exact Contents.ofImage_patch v.map bytes hpos (hhas.cluster_le h.ready)
  · rintro ⟨hleft, hwrite, himage, hleft'⟩
    refine ⟨hleft, hwrite, ?_, hleft'⟩
    simp only [contents, himage]

/-- One step has its effect, or fails on a device that has stopped writing and changes nothing. -/
theorem step_spec {v : Volume D} (h : S.Usable v.disk) {step : Volume.Step}
    (hstep : step.Within (AllocationMap.isData · = true)) :
    ∃ w, S.Usable w.disk ∧
      (step.apply v = (w, .ok ()) ∧ S.contents w = (S.contents v).apply step ∧
          S.writesLeft w.disk = (S.writesLeft v.disk).map (· - step.stores) ∧
          (∀ k, S.writesLeft v.disk = some k → step.stores ≤ k) ∨
        step.apply v = (w, .error .fault) ∧ S.contents w = S.contents v ∧
          S.writesLeft v.disk = some 0 ∧ S.writesLeft w.disk = some 0) := by
  have hstore (c : UInt32) (hpos : 0 < c.toNat) (hc : c.toNat < 512) (bytes : Cluster) :
      ∃ d, S.Usable d ∧
        (writeCluster v.disk c bytes = (d, .ok ()) ∧
            S.contents ⟨d, v.map⟩ = (S.contents v).store c bytes ∧
            S.writesLeft d = (S.writesLeft v.disk).map (· - 1) ∧
            (∀ k, S.writesLeft v.disk = some k → 1 ≤ k) ∨
          writeCluster v.disk c bytes = (d, .error .fault) ∧
            S.contents ⟨d, v.map⟩ = S.contents v ∧ S.writesLeft v.disk = some 0 ∧
            S.writesLeft d = some 0) := by
    obtain ⟨d, hd, ⟨hne, hwrite, hx, hleft⟩ | ⟨hzero, hwrite, hx, hleft⟩⟩ :=
      writeCluster_eq h hpos hc bytes
    · refine ⟨d, hd, .inl ⟨hwrite, hx, hleft, fun k hk => Nat.pos_of_ne_zero ?_⟩⟩
      rintro rfl
      exact hne hk
    · exact ⟨d, hd, .inr ⟨hwrite, hx, hzero, hleft⟩⟩
  cases step with
  | link c next =>
    refine ⟨{ v with map := v.map.set c next }, h, .inl ⟨rfl, rfl, ?_, fun k _ => Nat.zero_le k⟩⟩
    simp only [Volume.Step.stores, Nat.sub_zero, Option.map_id']
  | saveMap =>
    obtain ⟨d, hd, hx⟩ := hstore mapCluster (by decide) (by decide) v.map.encode
    refine ⟨⟨d, v.map⟩, hd, ?_⟩
    rcases hx with ⟨hwrite, hx⟩ | ⟨hwrite, hx⟩
    · exact .inl ⟨by simp only [Volume.Step.apply, hwrite], hx⟩
    · exact .inr ⟨by simp only [Volume.Step.apply, hwrite], hx⟩
  | store c bytes =>
    have hdata := AllocationMap.isData_iff.mp hstep
    obtain ⟨d, hd, hx⟩ := hstore c (by omega) hdata.2 bytes
    refine ⟨⟨d, v.map⟩, hd, ?_⟩
    rcases hx with ⟨hwrite, hx⟩ | ⟨hwrite, hx⟩
    · exact .inl ⟨by simp only [Volume.Step.apply, hwrite], hx⟩
    · exact .inr ⟨by simp only [Volume.Step.apply, hwrite], hx⟩

/-- A device after the steps `done` of a list, of which `rest` was left out because no write was
left. -/
structure Advance (S : Storage D) (d e : D) (done rest : List Volume.Step) : Prop where
  usable : S.Usable e
  writesLeft : S.writesLeft e = (S.writesLeft d).map (· - Volume.Step.storesAll done)
  fits : ∀ k, S.writesLeft d = some k → Volume.Step.storesAll done ≤ k
  stopped : rest ≠ [] → S.writesLeft d = some (Volume.Step.storesAll done)

theorem Advance.cons {d e f : D} {step : Volume.Step} {done rest : List Volume.Step}
    (hleft : S.writesLeft e = (S.writesLeft d).map (· - step.stores))
    (hroom : ∀ k, S.writesLeft d = some k → step.stores ≤ k) (h : S.Advance e f done rest) :
    S.Advance d f (step :: done) rest := by
  constructor
  · exact h.usable
  · simp only [h.writesLeft, hleft, Option.map_map, Function.comp_def, Volume.Step.storesAll,
      Nat.sub_sub]
  · intro k hk
    have hrestFits := h.fits (k - step.stores) (by rw [hleft, hk]; rfl)
    have hstepFits := hroom k hk
    unfold Volume.Step.storesAll
    omega
  · intro hrest
    have hlast := h.stopped hrest
    rw [hleft, Option.map_eq_some_iff] at hlast
    obtain ⟨k, hk, hsub⟩ := hlast
    rw [hk, Volume.Step.storesAll, ← hsub, Nat.add_sub_cancel' (hroom k hk)]

/-- A list of steps is carried out in full, or up to the step at which no write was left. -/
theorem perform_spec {v : Volume D} (h : S.Usable v.disk) {steps : List Volume.Step}
    (hsteps : ∀ step ∈ steps, step.Within (AllocationMap.isData · = true)) :
    ∃ w outcome done rest, v.perform steps = (w, outcome) ∧ steps = done ++ rest ∧
      S.Advance v.disk w.disk done rest ∧ S.contents w = (S.contents v).applyAll done ∧
      (rest = [] ∧ outcome = .ok () ∨ rest ≠ [] ∧ outcome = .error .fault) := by
  induction steps generalizing v with
  | nil =>
    refine ⟨v, .ok (), [], [], rfl, rfl, ⟨h, ?_, fun k _ => Nat.zero_le k, fun hne => ?_⟩, rfl, ?_⟩
    · simp only [Volume.Step.storesAll, Nat.sub_zero, Option.map_id']
    · contradiction
    · exact .inl ⟨rfl, rfl⟩
  | cons step steps ih =>
    obtain ⟨u, hu, ⟨happly, hx, hleft, hroom⟩ | ⟨happly, hx, hzero, hleft⟩⟩ :=
      step_spec h (hsteps step (by simp))
    · obtain ⟨w, outcome, done, rest, hperform, rfl, hadvance, hcontents, hend⟩ :=
        ih hu fun s hs => hsteps s (List.mem_cons_of_mem _ hs)
      refine ⟨w, outcome, step :: done, rest, ?_, rfl, hadvance.cons hleft hroom, ?_, hend⟩
      · simp only [Volume.perform, happly, hperform]
      · rw [hcontents, hx, Contents.applyAll_cons]
    · refine ⟨u, .error .fault, [], step :: steps, ?_, rfl, ?_, hx, .inr ⟨by simp, rfl⟩⟩
      · simp only [Volume.perform, happly]
      · refine ⟨hu, ?_, fun k _ => Nat.zero_le k, fun _ => hzero⟩
        rw [hleft, hzero]
        rfl

theorem Advance.of_unchanged {c d e : D} {done rest : List Volume.Step}
    (h : S.Advance d e done rest) (hd : S.Unchanged c d) : S.Advance c e done rest :=
  ⟨h.usable, hd.writesLeft ▸ h.writesLeft, hd.writesLeft ▸ h.fits, hd.writesLeft ▸ h.stopped⟩

theorem Advance.writesLeft_eq_none {d e : D} {done rest : List Volume.Step}
    (h : S.Advance d e done rest) (hnone : S.writesLeft d = none) :
    S.writesLeft e = none ∧ rest = [] := by
  refine ⟨by rw [h.writesLeft, hnone]; rfl, ?_⟩
  by_contra hrest
  exact absurd (hnone.symm.trans (h.stopped hrest)) (by simp)

end Storage

theorem MemoryDisk.usable_create {clusters : Nat} (h : 512 ≤ clusters) :
    storage.Usable (create clusters) := by
  refine ⟨rfl, ?_⟩
  show 2048 ≤ (Array.replicate (clusters * clusterSize) (0 : UInt8)).size / sectorSize
  rw [Array.size_replicate]
  simp only [clusterSize, sectorSize]
  omega

theorem MemoryDisk.usable_failWritesAfter {d : MemoryDisk} (h : storage.Usable d)
    (n : Option Nat) : storage.Usable (d.failWritesAfter n) :=
  ⟨h.ready, h.sectors⟩

theorem MemoryDisk.image_failWritesAfter (d : MemoryDisk) (n : Option Nat) :
    storage.image (d.failWritesAfter n) = storage.image d := rfl

theorem MemoryDisk.writesLeft_failWritesAfter (d : MemoryDisk) (n : Nat) :
    storage.writesLeft (d.failWritesAfter (some n)) = some n :=
  congrArg some (Nat.add_sub_cancel_left d.writes n)

end ClusterFs
