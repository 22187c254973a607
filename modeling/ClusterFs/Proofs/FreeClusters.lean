import ClusterFs.Proofs.Invariant
import ClusterFs.Proofs.Likeness

/-!
What a free cluster holds is never seen. Two volumes with the same map, on devices that differ only
in free clusters, answer every request alike, and then differ again only in free clusters: a request
reads clusters in use, and a cluster that is taken is stored whole.
-/
namespace ClusterFs
open AllocationMap

namespace Storage

variable {D : Type} [BlockDevice D] {S : Storage D} {P Q : UInt32 → Prop} {d e d' e' : D}
  {c : UInt32} {lba : Nat} {bytes : Array UInt8}

/-- Devices that take every write and have the same bytes but in the data clusters of `P`. -/
structure SameOff (S : Storage D) (P : UInt32 → Prop) (d e : D) : Prop where
  left : S.Usable d ∧ S.writesLeft d = none
  right : S.Usable e ∧ S.writesLeft e = none
  size : (S.image e).size = (S.image d).size
  byte : ∀ k, (∀ c, P c → isData c = true → ¬ InCluster c k) → (S.image e)[k]? = (S.image d)[k]?

theorem SameOff.mono (h : S.SameOff P d e) (hPQ : ∀ c, P c → Q c) : S.SameOff Q d e :=
  ⟨h.left, h.right, h.size, fun k hk => h.byte k fun c hc => hk c (hPQ c hc)⟩

theorem SameOff.of_unchanged (h : S.SameOff P d e) (hd : S.Unchanged d d')
    (he : S.Unchanged e e') : S.SameOff P d' e' where
  left := ⟨hd.usable, hd.writesLeft.trans h.left.2⟩
  right := ⟨he.usable, he.writesLeft.trans h.right.2⟩
  size := by rw [hd.image, he.image, h.size]
  byte k hk := by rw [hd.image, he.image, h.byte k hk]

theorem SameOff.window_eq (h : S.SameOff P d e) {n offset : Nat}
    (hout : ∀ k, offset ≤ k → k < offset + n → ∀ c, P c → isData c = true → ¬ InCluster c k) :
    Image.window n (S.image e) offset = Image.window n (S.image d) offset := by
  ext i hi
  rw [Image.getElem_window, Image.getElem_window, Array.getD_eq_getD_getElem?,
    Array.getD_eq_getD_getElem?, h.byte _ (hout _ (Nat.le_add_right _ _) (by omega))]

theorem notInCluster_boot {k : Nat} (hk : k < sectorSize) (hc : isData c = true) :
    ¬ InCluster c k := by
  have hpos := (isData_iff.mp hc).1
  simp only [InCluster, sectorSize] at hk ⊢
  omega

theorem SameOff.readCluster (h : S.SameOff P d e) (hc : ¬ P c) (hlt : c.toNat < 512) :
    Coupled (S.SameOff P) (BlockDevice.read d (clusterLba c) sectorsPerCluster clusterSize)
      (BlockDevice.read e (clusterLba c) sectorsPerCluster clusterSize) := by
  obtain ⟨d', hread, hd⟩ := readCluster_eq (v := ⟨d, .formatted⟩) h.left.1 (covers_of_lt hlt)
  obtain ⟨e', hread', he⟩ := readCluster_eq (v := ⟨e, .formatted⟩) h.right.1 (covers_of_lt hlt)
  have hsame : (S.contents ⟨e, .formatted⟩).cluster c = (S.contents ⟨d, .formatted⟩).cluster c := by
    refine h.window_eq fun k hlow hhigh a ha _ hin => ?_
    obtain rfl := InCluster.eq (inCluster_iff.mpr ⟨hlow, hhigh⟩) hin
    exact hc ha
  rw [hread, hread', hsame]
  exact ⟨rfl, h.of_unchanged hd he⟩

/-- Equal bytes in the same place leave devices alike, and alike also there. -/
theorem SameOff.patched (h : S.SameOff P d e) (hd : S.Usable d' ∧ S.writesLeft d' = none)
    (he : S.Usable e' ∧ S.writesLeft e' = none)
    (himage : S.image d' = Image.patch (S.image d) (lba * sectorSize) bytes)
    (himage' : S.image e' = Image.patch (S.image e) (lba * sectorSize) bytes)
    (hQ : ∀ c k, P c → InCluster c k →
      Q c ∨ lba * sectorSize ≤ k ∧ k < lba * sectorSize + bytes.size) :
    S.SameOff Q d' e' := by
  refine ⟨hd, he, ?_, fun k hk => ?_⟩
  · rw [himage, himage', Image.size_patch, Image.size_patch, h.size]
  · rw [himage, himage', Image.getElem?_patch, Image.getElem?_patch, h.size]
    split_ifs with hin
    · rfl
    by_cases hsize : k < (S.image d).size
    · refine h.byte k fun c hc hdata hcluster => ?_
      rcases hQ c k hc hcluster with hQ | hpatch
      · exact hk c hQ hdata hcluster
      · exact hin ⟨hpatch.1, hpatch.2, hsize⟩
    · have hsize' := h.size
      rw [Array.getElem?_eq_none (by omega), Array.getElem?_eq_none (by omega)]

theorem SameOff.write (h : S.SameOff P d e) {count : Nat} (hlba : lba + count ≤ 2048)
    (hsize : bytes.size = count * sectorSize) :
    ∃ d' e', BlockDevice.write d bytes lba count = (d', .ok ()) ∧
      BlockDevice.write e bytes lba count = (e', .ok ()) ∧
      ∀ Q : UInt32 → Prop, (∀ c k, P c → InCluster c k →
        Q c ∨ lba * sectorSize ≤ k ∧ k < lba * sectorSize + bytes.size) → S.SameOff Q d' e' := by
  have hwrite {f : D} (hf : S.Usable f ∧ S.writesLeft f = none) :
      ∃ f', BlockDevice.write f bytes lba count = (f', .ok ()) ∧
        (S.Usable f' ∧ S.writesLeft f' = none) ∧
        S.image f' = Image.patch (S.image f) (lba * sectorSize) bytes := by
    obtain ⟨f', hw, hready, himage, hsectors, hleft⟩ :=
      S.write_eq hf.1.ready (hlba.trans hf.1.sectors) hsize (by simp [hf.2])
    exact ⟨f', hw, ⟨⟨hready, hsectors ▸ hf.1.sectors⟩, by simp [hleft, hf.2]⟩, himage⟩
  obtain ⟨d', hd, hleft, himage⟩ := hwrite h.left
  obtain ⟨e', he, hright, himage'⟩ := hwrite h.right
  exact ⟨d', e', hd, he, fun Q hQ => h.patched hleft hright himage himage' hQ⟩

theorem SameOff.writeCluster (h : S.SameOff P d e) (hlt : c.toNat < 512) (bytes : Cluster) :
    Coupled (S.SameOff P) (writeCluster d c bytes) (writeCluster e c bytes) ∧
      ((writeCluster d c bytes).2 = .ok () →
        S.SameOff (fun a => P a ∧ a ≠ c) (writeCluster d c bytes).1
          (writeCluster e c bytes).1) := by
  have hlba : clusterLba c + sectorsPerCluster ≤ 2048 := by
    simp only [clusterLba, sectorsPerCluster]
    omega
  obtain ⟨d', e', hd, he, hall⟩ := h.write hlba bytes.size_toArray
  simp only [ClusterFs.writeCluster, hd, he]
  refine ⟨⟨rfl, hall _ fun a k ha _ => .inl ha⟩, fun _ => hall _ fun a k ha hin => ?_⟩
  by_cases hac : a = c
  · subst hac
    exact .inr (bytes.size_toArray.symm ▸ inCluster_iff.mp hin)
  · exact .inl ⟨ha, hac⟩

theorem SameOff.readBoot (h : S.SameOff P d e) :
    Coupled (S.SameOff P) (BlockDevice.read d bootSector 1 sectorSize)
      (BlockDevice.read e bootSector 1 sectorSize) := by
  have hread {f : D} (hf : S.Usable f) : ∃ f', BlockDevice.read f bootSector 1 sectorSize =
      (f', ⟨(Image.window 512 (S.image f) 0).toArray, .ok ()⟩) ∧ S.Unchanged f f' := by
    have hsectors := hf.sectors
    have hlba : bootSector + 1 ≤ S.sectors f := by
      unfold bootSector
      omega
    have hend := S.sectors_le hf.ready
    have hroom : 1 * sectorSize ≤ sectorSize := by decide
    obtain ⟨f', hr, hready, himage, hsame, hleft⟩ := S.read_eq hf.ready hlba hroom
    refine ⟨f', ?_, ⟨⟨hready, hsame ▸ hf.sectors⟩, himage, hleft⟩⟩
    rw [hr, Image.toArray_window]
    · rfl
    · simp only [sectorSize] at hend
      omega
  obtain ⟨d', hd, hleft⟩ := hread h.left.1
  obtain ⟨e', he, hright⟩ := hread h.right.1
  have hsame : Image.window 512 (S.image e) 0 = Image.window 512 (S.image d) 0 := by
    refine h.window_eq fun k _ hk a _ hdata => ?_
    exact notInCluster_boot (by simpa using hk) hdata
  rw [hd, he, hsame]
  exact ⟨rfl, h.of_unchanged hleft hright⟩

theorem SameOff.writeBoot (h : S.SameOff P d e) (bytes : Sector) :
    Coupled (S.SameOff P) (BlockDevice.write d bytes.toArray bootSector 1)
      (BlockDevice.write e bytes.toArray bootSector 1) := by
  have hlba : bootSector + 1 ≤ 2048 := by decide
  have hsize : bytes.toArray.size = 1 * sectorSize := bytes.size_toArray
  obtain ⟨d', e', hd, he, hall⟩ := h.write hlba hsize
  rw [hd, he]
  exact ⟨rfl, hall _ fun a k ha _ => .inl ha⟩

/-- Devices with the same bytes off some clusters are alike off these. -/
def likeness (S : Storage D) : Likeness D where
  Alike := S.SameOff
  mono h := h.mono
  readCluster h hc hlt := h.readCluster hc hlt
  writeCluster _ bytes h _ hlt := h.writeCluster hlt bytes
  readBoot h := h.readBoot
  writeBoot bytes h := h.writeBoot bytes

/-- Volumes with the same map and the same bytes but in clusters whose entry is empty. -/
structure SameUsed (S : Storage D) (v w : Volume D) : Prop where
  map : w.map = v.map
  size : (S.image w.disk).size = (S.image v.disk).size
  byte : ∀ k, (∀ c, v.map.get? c = some unused → ¬ InCluster c k) →
    (S.image w.disk)[k]? = (S.image v.disk)[k]?

end Storage

/-- The two entries before the data clusters are reserved, so none of them is empty. -/
theorem Contents.Structured.isData_of_unused {x : Contents} {directories files : Finset UInt32}
    (h : x.Structured directories files) {c : UInt32} (hunused : x.map.get? c = some unused) :
    isData c = true := by
  have hlt := lt_of_get?_eq_some hunused
  have hne {b entry : UInt32} (hb : x.map.get? b = some entry) (hentry : entry ≠ unused) :
      c.toNat ≠ b.toNat := fun h => by
    rw [UInt32.toNat_inj.mp h, hb] at hunused
    exact hentry (Option.some.inj hunused)
  have hzero := hne h.reserved.1 (by decide)
  have hone := hne h.reserved.2 (by decide)
  rw [UInt32.toNat_zero] at hzero
  rw [UInt32.toNat_one] at hone
  exact isData_iff.mpr ⟨by omega, hlt⟩

namespace Session
open Contents Likeness Volume

variable {D : Type} [BlockDevice D] {S : Storage D} {s t : Session D} {a : Action}
  {w : Volume D} {allowed : Session D → Action → Session D → Prop} {actions : List Action}

theorem Run.answers_append (h : Run allowed s actions t) (rest : List Action) :
    s.answers (actions ++ rest) = s.answers actions ++ t.answers rest := by
  induction h generalizing rest with
  | nil => rfl
  | @snoc actions t u a _ hstep _ ih =>
    rw [List.append_assoc, ih, ih]
    simp only [List.singleton_append, answers, hstep, List.append_assoc]

/-- No change fails on a device that works, if every entry found leads to the device. -/
theorem Healthy.change_ne_device (hs : s.Healthy S) (hadmits : s.Admits a)
    (hchanges : a.changes = true) (e : DiskError) : s.volume.outcome a ≠ .error (.device e) := by
  cases a with
  | write parent name data =>
    exact fun h => Storage.write_ne_device hs.usable hs.writes parent name data e
      (Reply.discard_eq_error_iff.mp h)
  | delete parent name =>
    refine Storage.delete_ne_device hs.usable hs.writes (fun i hlocate hdir => ?_) e
    exact covers_of_lookup hs (hadmits.parentsIn hs parent rfl)
      (exists_child_of_locate hlocate).2.2.2 hdir
  | read parent name capacity => cases hchanges
  | readDirectory parent name capacity => cases hchanges
  | stat parent name => cases hchanges
  | remount => cases hchanges

/-- A table that is read, or deleted, is not on a free cluster. -/
theorem Healthy.lists (hs : s.Healthy S) (hadmits : s.Admits a) :
    Lists S.likeness s.volume.Free s.volume a := by
  have hreads (parent : UInt32) (name : ShortName) (hparent : a.parent? = some parent) (e : Entry)
      (he : (s.volume.stat parent name).2 = .ok e) (hdir : e.isDirectory = true) :
      S.likeness.Reads s.volume.Free e.cluster := by
    rw [Storage.stat_snd hs.usable] at he
    obtain ⟨haccepts, i, rfl, hused, -⟩ := exists_child_of_lookup he
    have hmem := hadmits.parentsIn hs parent hparent haccepts
    obtain ⟨-, htable, -⟩ := (hs.structured.sound parent hmem i hused).directory hdir
    obtain ⟨hdata, hnot⟩ := (hs.structured.occupied _).mp (.inl htable)
    exact reads_of_lt (fun h => hnot h.2) (isData_iff.mp hdata).2
  cases a with
  | readDirectory parent name capacity => exact hreads parent name rfl
  | delete parent name => exact hreads parent name rfl
  | write parent name data => trivial
  | read parent name capacity => trivial
  | stat parent name => trivial
  | remount => trivial

/-- Volumes alike off the free clusters of the first. -/
def FreeTwin (S : Storage D) (v w : Volume D) : Prop :=
  S.likeness.Twin v.Free v w

theorem FreeTwin.sameUsed (h : FreeTwin S t.volume w) : S.SameUsed t.volume w :=
  ⟨h.map, h.disk.size, fun k hk => h.disk.byte k fun c hc _ => hk c hc.2⟩

theorem Healthy.freeTwin (hs : s.Healthy S) (hw : S.Usable w.disk)
    (hwrites : S.writesLeft w.disk = none) (h : S.SameUsed s.volume w) :
    FreeTwin S s.volume w := by
  refine ⟨⟨h.map, ⟨hs.usable, hs.writes⟩, ⟨hw, hwrites⟩, h.size, fun k hk => ?_⟩, fun c hc => hc⟩
  refine h.byte k fun c hunused => hk c ⟨?_, hunused⟩ ?_
  · exact hs.structured.isData_of_unused hunused
  · exact hs.structured.isData_of_unused hunused

/-- One admitted action keeps the twins, and is answered alike. -/
theorem step_freeTwin (hs : s.Healthy S) (hadmits : s.Admits a) (hstep : s.step a = .ok t)
    (h : FreeTwin S s.volume w) :
    w.answer a = s.volume.answer a ∧
      ∃ x, step { s with volume := w } a = .ok { t with volume := x } ∧ FreeTwin S t.volume x := by
  obtain ⟨hanswer, x, hx, hends⟩ := step_alike h (hs.lists hadmits)
  obtain ⟨habreast, htwin⟩ := hends t hstep
  rw [hstep] at hx
  refine ⟨hanswer, x, hx, ?_⟩
  by_cases hchanges : a.changes = true
  · have hends := htwin hchanges fun e => hs.change_ne_device hadmits hchanges e
    exact ⟨⟨hends.map, hends.disk.mono fun c hc => ⟨hc.1.1, hc.2⟩⟩, fun c hc => hc⟩
  · have heffect := (Healthy.step hs (hadmits.parentsIn hs) hstep).2
    have hmap : t.volume.map = s.volume.map := by
      cases heffect with
      | same hcontents _ _ _ => exact congrArg Contents.map hcontents
      | wrote => exact absurd rfl hchanges
      | deleted => exact absurd rfl hchanges
    have hfree : t.volume.Free = s.volume.Free := by
      unfold Volume.Free
      rw [hmap]
    exact ⟨hfree ▸ habreast, fun c hc => hc⟩

/-- Take any session that admitted requests reach from a formatted volume, and the same session on a
volume that differs from it in free clusters only. The same admitted requests are answered alike,
and the volumes then differ in free clusters only. -/
theorem free_clusters_unseen {d : D} (hd : S.Usable d) (hwrites : S.writesLeft d = none) :
    ∃ s₀, fresh d = .ok s₀ ∧
      ∀ before s, Run (fun s a _ => s.Admits a) s₀ before s →
        ∀ w, S.Usable w.disk → S.writesLeft w.disk = none → S.SameUsed s.volume w →
          ∀ after t, Run (fun s a _ => s.Admits a) s after t →
            ∃ x, Run (fun s a _ => s.Admits a) { s with volume := w } after
                { t with volume := x } ∧
              answers { s with volume := w } after = s.answers after ∧
              S.SameUsed t.volume x := by
  obtain ⟨e, hfresh, hhealthy, -⟩ := fresh_eq hd hwrites
  refine ⟨_, hfresh, fun before s hbefore w hw hleft hsame after t hafter => ?_⟩
  have hs := hhealthy.run hbefore
  suffices hall : ∃ x, Run (fun s a _ => s.Admits a) { s with volume := w } after
      { t with volume := x } ∧
      answers { s with volume := w } after = s.answers after ∧ FreeTwin S t.volume x by
    obtain ⟨x, hrun, hanswers, htwin⟩ := hall
    exact ⟨x, hrun, hanswers, htwin.sameUsed⟩
  induction hafter with
  | nil => exact ⟨w, .nil, rfl, hs.freeTwin hw hleft hsame⟩
  | @snoc after t u a hrun hstep hadmits ih =>
    obtain ⟨x, hx, hanswers, htwin⟩ := ih
    obtain ⟨hanswer, y, hy, hends⟩ := step_freeTwin (hs.run hrun) hadmits hstep htwin
    refine ⟨y, hx.snoc hy hadmits, ?_, hends⟩
    rw [hx.answers_append, hrun.answers_append, hanswers]
    simp only [answers, hanswer, hstep, hy]

/-- A byte of a free cluster can be exchanged. -/
theorem exists_sameUsed {s : Session MemoryDisk} (hs : s.Healthy MemoryDisk.storage) {c : UInt32}
    (hunused : s.volume.map.get? c = some unused) :
    ∃ w : Volume MemoryDisk, MemoryDisk.storage.Usable w.disk ∧
      MemoryDisk.storage.writesLeft w.disk = none ∧
      MemoryDisk.storage.SameUsed s.volume w ∧ w.disk.image ≠ s.volume.disk.image := by
  obtain ⟨⟨d, map⟩, directories, files⟩ := s
  have hlast := hs.usable.cluster_le (Storage.covers_of_lt (lt_of_get?_eq_some hunused))
  have hin : InCluster c (clusterLba c * sectorSize) :=
    inCluster_iff.mpr ⟨Nat.le_refl _, Nat.lt_add_of_pos_right (by decide)⟩
  have hlt : clusterLba c * sectorSize < d.image.size := by
    have hlast : clusterLba c * sectorSize + 2048 ≤ d.image.size := hlast
    omega
  generalize clusterLba c * sectorSize = k at hin hlt
  refine ⟨⟨{ d with image := Image.patch d.image k #[d.image[k] + 1] }, map⟩,
    ⟨hs.usable.ready, ?_⟩, hs.writes, ⟨rfl, Image.size_patch .., fun j hj => ?_⟩, fun hsame => ?_⟩
  · have hsectors : 2048 ≤ d.image.size / sectorSize := hs.usable.sectors
    show 2048 ≤ (Image.patch d.image k #[d.image[k] + 1]).size / sectorSize
    rwa [Image.size_patch]
  · have hne : j ≠ k := fun h => hj c hunused (h ▸ hin)
    show (Image.patch d.image k #[d.image[k] + 1])[j]? = d.image[j]?
    rw [Image.getElem?_patch, if_neg]
    simp only [Array.size_singleton]
    omega
  · have hbyte := congrArg (fun image : Image => image[k]?) hsame
    simp only [Image.getElem?_patch, Array.size_singleton, Nat.le_refl, hlt, and_true,
      Nat.lt_add_one, if_true, Nat.sub_self, Array.getElem?_eq_getElem hlt] at hbyte
    have hsum : d.image[k] + 1 = d.image[k] := Option.some.inj hbyte
    simp at hsum

/-- A zeroed disk is formatted, and a byte of a free cluster is exchanged. The first file is written
all the same. -/
theorem first_write_after_exchange :
    ∃ (s₀ t : Session MemoryDisk) (w x : Volume MemoryDisk),
      fresh (MemoryDisk.create 512) = .ok s₀ ∧ w.disk.image ≠ s₀.volume.disk.image ∧
      Run (fun s a _ => s.Admits a) s₀ [.write rootCluster (.ofParts [65] []) (.ofArray #[7])] t ∧
      answers { s₀ with volume := w } [.write rootCluster (.ofParts [65] []) (.ofArray #[7])] =
        s₀.answers [.write rootCluster (.ofParts [65] []) (.ofArray #[7])] ∧
      MemoryDisk.storage.SameUsed t.volume x := by
  have hcreate := MemoryDisk.usable_create (Nat.le_refl 512)
  obtain ⟨s₀, hfresh, hall⟩ := free_clusters_unseen hcreate rfl
  obtain ⟨e, hformatted, -, -⟩ := fresh_eq hcreate rfl
  obtain ⟨hs, -⟩ := first_write_ok hcreate rfl hfresh (.ofParts [65] []) (.ofArray #[7]) (by decide)
  have hunused : s₀.volume.map.get? 3 = some unused := by
    rw [← Except.ok.inj (hformatted.symm.trans hfresh), get?_formatted (by decide)]
    rfl
  obtain ⟨w, hw, hwrites, hsame, hne⟩ := exists_sameUsed hs hunused
  obtain ⟨t, -, -, hrun, -⟩ :=
    exists_first_write hcreate rfl hfresh (.ofParts [65] []) (.ofArray #[7]) (by decide)
  obtain ⟨x, -, hanswers, hafter⟩ := hall [] s₀ .nil w hw hwrites hsame _ t hrun
  exact ⟨s₀, t, w, x, hfresh, hne, hrun, hanswers, hafter⟩

end Session

end ClusterFs
