import ClusterFs.BootSector
import ClusterFs.Proofs.Contents
import ClusterFs.Proofs.Tables
import Mathlib.Data.Finset.Basic

/-!
The structure of a sound volume. Its data clusters in use are the directories and the clusters of
files; every used child of a directory refers to one of the directories or to linked clusters of a
file, and no cluster belongs to two children. Three changes keep this: clusters that were free are
put to use, a child of a directory is exchanged, and clusters that no child refers to are released.
-/
namespace ClusterFs.Contents
open AllocationMap

/-- An entry of a directory refers to another directory, which is not the root, or to the distinct
linked clusters of a file, as many as its size takes. -/
structure Sound (x : Contents) (directories files : Finset UInt32) (e : Entry) : Prop where
  directory : e.isDirectory = true →
    e.size = 0 ∧ e.cluster ∈ directories ∧ e.cluster ≠ rootCluster
  file : e.isDirectory = false →
    1 ≤ e.size.toNat ∧ (x.map.chain e.cluster).length = clustersFor e.size.toNat ∧
      (x.map.chain e.cluster).Nodup ∧ x.map.Linked (x.map.chain e.cluster) ∧
      ∀ c ∈ x.map.chain e.cluster, c ∈ files

/-- The invariant of a volume with the given directories and clusters of files. -/
structure Structured (x : Contents) (directories files : Finset UInt32) : Prop where
  signed : x.boot = BootSector.signature
  saved : x.cluster mapCluster = x.map.encode
  reserved : x.map.get? 0 = some reserved0 ∧ x.map.get? 1 = some reserved1
  root_mem : rootCluster ∈ directories
  apart : Disjoint directories files
  occupied : ∀ c, c ∈ directories ∨ c ∈ files ↔ isData c = true ∧ x.map.get? c ≠ some unused
  accepts : ∀ c ∈ directories, x.accepts c = true
  sound : ∀ p ∈ directories, ∀ i, (x.child p i).isUsed = true →
    x.Sound directories files (x.child p i)
  names : ∀ p ∈ directories, ∀ i j, (x.child p i).isUsed = true → (x.child p j).isUsed = true →
    (x.child p i).name = (x.child p j).name → i = j
  owner : ∀ p ∈ directories, ∀ q ∈ directories, ∀ i j c, (x.child p i).isUsed = true →
    (x.child q j).isUsed = true → c ∈ x.map.chain (x.child p i).cluster →
    c ∈ x.map.chain (x.child q j).cluster → p = q ∧ i = j
  loopless : ∀ p ∈ directories, ∀ i, (x.child p i).isUsed = true →
    p ∉ x.map.chain (x.child p i).cluster

variable {x y : Contents} {directories files : Finset UInt32} {p c : UInt32} {i : Fin 62}

theorem accepts_of_agreeOff {P : UInt32 → Prop} (hagree : AgreeOff P x y) (hc : ¬ P c)
    (hdata : isData c = true) : y.accepts c = x.accepts c := by
  simp only [accepts, isTerminal, hagree.entry c hc,
    hagree.table hc (isData_ne_mapCluster hdata)]

theorem isTerminal_of_accepts (h : x.accepts c = true) : x.map.isTerminal c = true :=
  (Bool.and_eq_true_iff.mp h).1

theorem chain_of_accepts (h : x.accepts c = true) : x.map.chain c = [c] := by
  obtain ⟨hdata, hend⟩ := isTerminal_iff.mp (isTerminal_of_accepts h)
  have hlinked : x.map.Linked [c] := hend
  exact chain_of_linked hlinked (by simpa using hdata) (by simp)

/-- The contents with one child of a directory exchanged. -/
def setEntry (x : Contents) (p : UInt32) (i : Fin 62) (e : Entry) : Contents :=
  x.store p ((x.table p).setChild i e).encode

@[simp] theorem map_setEntry (x : Contents) (p : UInt32) (i : Fin 62) (e : Entry) :
    (x.setEntry p i e).map = x.map := rfl

theorem cluster_setEntry_of_ne (x : Contents) (i : Fin 62) (e : Entry) (h : c ≠ p) :
    (x.setEntry p i e).cluster c = x.cluster c :=
  cluster_store_of_ne x _ h

theorem table_store_self (x : Contents) (p : UInt32) (t : Directory) :
    (x.store p t.encode).table p = t := by
  simp only [table, cluster_store_self, Directory.decode_encode]

theorem table_setEntry (x : Contents) (p c : UInt32) (i : Fin 62) (e : Entry) :
    (x.setEntry p i e).table c = if c = p then (x.table p).setChild i e else x.table c := by
  by_cases h : c = p
  · rw [if_pos h, h, setEntry, table_store_self]
  · simp only [if_neg h, table, cluster_setEntry_of_ne x i e h]

theorem child_setEntry (x : Contents) (p c : UInt32) (i j : Fin 62) (e : Entry) :
    (x.setEntry p i e).child c j = if c = p ∧ j = i then e else x.child c j := by
  simp only [child, table_setEntry]
  by_cases h : c = p
  · subst h
    simp only [if_true, Directory.get_setChild, true_and]
  · simp only [h, if_false, false_and]

theorem accepts_setEntry (x : Contents) (p c : UInt32) (i : Fin 62) (e : Entry) :
    (x.setEntry p i e).accepts c = x.accepts c := by
  simp only [accepts, map_setEntry, table_setEntry]
  by_cases h : c = p
  · rw [if_pos h, Directory.describes_setChild, h]
  · rw [if_neg h]

/-- A map that is exchanged and saved leaves the tables, and what a cluster passes as if its entry
stays. -/
theorem table_release (x : Contents) (m : AllocationMap) (hc : c ≠ mapCluster) :
    (x.withMap m).saveMap.table c = x.table c := by
  simp only [table, cluster_saveMap_of_ne _ hc, cluster_withMap]

theorem accepts_release {m : AllocationMap} (hkept : m.get? c = x.map.get? c)
    (hdata : isData c = true) : (x.withMap m).saveMap.accepts c = x.accepts c := by
  simp only [accepts, isTerminal, map_saveMap, map_withMap, hkept,
    table_release x m (isData_ne_mapCluster hdata)]

namespace Structured

theorem isData_of_mem (h : x.Structured directories files) (hc : c ∈ directories ∨ c ∈ files) :
    isData c = true :=
  ((h.occupied c).mp hc).1

theorem ne_unused_of_mem (h : x.Structured directories files)
    (hc : c ∈ directories ∨ c ∈ files) : x.map.get? c ≠ some unused :=
  ((h.occupied c).mp hc).2

/-- A cluster that passes as a directory is in use. -/
theorem mem_of_accepts (h : x.Structured directories files) (hc : x.accepts c = true) :
    c ∈ directories ∨ c ∈ files := by
  obtain ⟨hdata, hend⟩ := isTerminal_iff.mp (isTerminal_of_accepts hc)
  refine (h.occupied c).mpr ⟨hdata, ?_⟩
  rw [hend]
  decide

theorem ne_mapCluster (h : x.Structured directories files) (hp : p ∈ directories) :
    p ≠ mapCluster :=
  isData_ne_mapCluster (h.isData_of_mem (.inl hp))

/-- A used child refers to linked clusters in use. -/
theorem extent (h : x.Structured directories files) (hp : p ∈ directories)
    (hused : (x.child p i).isUsed = true) :
    x.map.Linked (x.map.chain (x.child p i).cluster) ∧
      (x.map.chain (x.child p i).cluster).Nodup ∧
      ∀ c ∈ x.map.chain (x.child p i).cluster, c ∈ directories ∨ c ∈ files := by
  have hsound := h.sound p hp i hused
  cases hdir : (x.child p i).isDirectory with
  | true =>
    obtain ⟨-, hmem, -⟩ := hsound.directory hdir
    have hdirectory := h.accepts _ hmem
    rw [chain_of_accepts hdirectory]
    refine ⟨(isTerminal_iff.mp (isTerminal_of_accepts hdirectory)).2, List.nodup_singleton _, ?_⟩
    intro c hc
    rw [List.mem_singleton.mp hc]
    exact .inl hmem
  | false =>
    obtain ⟨-, -, hnodup, hlinked, hfiles⟩ := hsound.file hdir
    exact ⟨hlinked, hnodup, fun c hc => .inr (hfiles c hc)⟩

/-- A used child takes as many clusters as its size requires. -/
theorem length_chain (h : x.Structured directories files) (hp : p ∈ directories)
    (hused : (x.child p i).isUsed = true) :
    (x.map.chain (x.child p i).cluster).length = requiredClusters (x.child p i).size.toNat := by
  have hsound := h.sound p hp i hused
  cases hdir : (x.child p i).isDirectory with
  | true =>
    obtain ⟨hsize, hmem, -⟩ := hsound.directory hdir
    rw [chain_of_accepts (h.accepts _ hmem), hsize]
    rfl
  | false =>
    obtain ⟨hsize, hlength, -⟩ := hsound.file hdir
    rw [hlength, requiredClusters, if_neg (Nat.ne_of_gt hsize)]

/-- A used child keeps its chain under a map with the same entries on the chain. -/
theorem chain_eq (h : x.Structured directories files) (hp : p ∈ directories)
    (hused : (x.child p i).isUsed = true) {m : AllocationMap}
    (hm : ∀ c ∈ x.map.chain (x.child p i).cluster, m.get? c = x.map.get? c) :
    m.chain (x.child p i).cluster = x.map.chain (x.child p i).cluster :=
  chain_congr (h.extent hp hused).1 hm

section Frame

variable {P : UInt32 → Prop} (h : x.Structured directories files) (hagree : AgreeOff P x y)
  (hfree : ∀ c, P c → isData c = true ∧ x.map.get? c = some unused)
include h hfree

theorem not_of_free (hc : c ∈ directories ∨ c ∈ files) : ¬ P c := fun hP =>
  h.ne_unused_of_mem hc (hfree c hP).2

include hagree

/-- A change of free clusters leaves the directories and what their children refer to. -/
theorem table_of_agreeOff (hp : p ∈ directories) : y.table p = x.table p :=
  hagree.table (h.not_of_free hfree (.inl hp)) (h.ne_mapCluster hp)

theorem child_of_agreeOff (hp : p ∈ directories) (i : Fin 62) : y.child p i = x.child p i := by
  simp only [child, h.table_of_agreeOff hagree hfree hp]

theorem get?_of_agreeOff (hp : p ∈ directories) (hused : (x.child p i).isUsed = true) :
    ∀ c ∈ x.map.chain (x.child p i).cluster, y.map.get? c = x.map.get? c :=
  fun c hc => hagree.entry c (h.not_of_free hfree ((h.extent hp hused).2.2 c hc))

end Frame

/-- Used children that were there before, with the entries of their chains as they were and what
they refer to still in use, are as sound, as differently named and as disjoint as before. -/
theorem children_of_keeps (h : x.Structured directories files)
    {directories' files' : Finset UInt32}
    (hkeeps : ∀ p ∈ directories', ∀ i, (y.child p i).isUsed = true →
      p ∈ directories ∧ y.child p i = x.child p i ∧
        ∀ c ∈ x.map.chain (x.child p i).cluster, y.map.get? c = x.map.get? c ∧
          (c ∈ directories → c ∈ directories') ∧ (c ∈ files → c ∈ files')) :
    (∀ p ∈ directories', ∀ i, (y.child p i).isUsed = true →
      y.Sound directories' files' (y.child p i)) ∧
    (∀ p ∈ directories', ∀ i j, (y.child p i).isUsed = true → (y.child p j).isUsed = true →
      (y.child p i).name = (y.child p j).name → i = j) ∧
    (∀ p ∈ directories', ∀ q ∈ directories', ∀ i j c, (y.child p i).isUsed = true →
      (y.child q j).isUsed = true → c ∈ y.map.chain (y.child p i).cluster →
      c ∈ y.map.chain (y.child q j).cluster → p = q ∧ i = j) ∧
    ∀ p ∈ directories', ∀ i, (y.child p i).isUsed = true →
      p ∉ y.map.chain (y.child p i).cluster := by
  have hchain {p : UInt32} (hp : p ∈ directories') {i : Fin 62}
      (hi : (y.child p i).isUsed = true) :
      y.map.chain (y.child p i).cluster = x.map.chain (x.child p i).cluster := by
    obtain ⟨hp, heq, hmap⟩ := hkeeps p hp i hi
    rw [heq] at hi ⊢
    exact h.chain_eq hp hi fun c hc => (hmap c hc).1
  refine ⟨fun p hp i hi => ?_, fun p hp i j hi hj hname => ?_,
    fun p hp q hq i j c hi hj hci hcj => ?_, fun p hp i hi => ?_⟩
  · have heqchain := hchain hp hi
    obtain ⟨hp, heq, hmap⟩ := hkeeps p hp i hi
    rw [heq] at hi heqchain ⊢
    have hsound := h.sound p hp i hi
    constructor
    · intro hdir
      obtain ⟨hsize, hmem, hroot⟩ := hsound.directory hdir
      refine ⟨hsize, (hmap _ ?_).2.1 hmem, hroot⟩
      rw [chain_of_accepts (h.accepts _ hmem)]
      exact List.mem_singleton_self _
    · intro hdir
      obtain ⟨hsize, hlength, hnodup, hlinked, hmem⟩ := hsound.file hdir
      rw [heqchain]
      exact ⟨hsize, hlength, hnodup, hlinked.congr fun c hc => (hmap c hc).1,
        fun c hc => (hmap c hc).2.2 (hmem c hc)⟩
  · obtain ⟨hmem, hieq, -⟩ := hkeeps p hp i hi
    obtain ⟨-, hjeq, -⟩ := hkeeps p hp j hj
    rw [hieq] at hi hname
    rw [hjeq] at hj hname
    exact h.names p hmem i j hi hj hname
  · rw [hchain hp hi] at hci
    rw [hchain hq hj] at hcj
    obtain ⟨hp, hieq, -⟩ := hkeeps p hp i hi
    obtain ⟨hq, hjeq, -⟩ := hkeeps q hq j hj
    rw [hieq] at hi
    rw [hjeq] at hj
    exact h.owner p hp q hq i j c hi hj hci hcj
  · rw [hchain hp hi]
    obtain ⟨hp, heq, -⟩ := hkeeps p hp i hi
    rw [heq] at hi
    exact h.loopless p hp i hi

/-- Free clusters may be put to use, as directories without children or for files. -/
theorem grow (h : x.Structured directories files) {P : UInt32 → Prop} (hagree : AgreeOff P x y)
    (hsaved : y.cluster mapCluster = y.map.encode)
    (hfree : ∀ c, P c → isData c = true ∧ x.map.get? c = some unused)
    {directories' files' : Finset UInt32}
    (hdirectories : ∀ c, c ∈ directories' ↔ c ∈ directories ∨ P c ∧ c ∈ directories')
    (hfiles : ∀ c, c ∈ files' ↔ c ∈ files ∨ P c ∧ c ∈ files')
    (hdisjoint : Disjoint directories' files')
    (hnew : ∀ c, P c → (c ∈ directories' ∨ c ∈ files' ↔ y.map.get? c ≠ some unused))
    (hempty : ∀ c, P c → c ∈ directories' →
      y.accepts c = true ∧ ∀ i, (y.child c i).isUsed = false) :
    y.Structured directories' files' := by
  -- a directory with a used child is an old one
  have hparent {p : UInt32} {i : Fin 62} (hp : p ∈ directories')
      (hused : (y.child p i).isUsed = true) : p ∈ directories := by
    rcases (hdirectories p).mp hp with hp | ⟨hP, hp⟩
    · exact hp
    · rw [(hempty p hP hp).2 i] at hused
      contradiction
  have hkeeps : ∀ p ∈ directories', ∀ i, (y.child p i).isUsed = true →
      p ∈ directories ∧ y.child p i = x.child p i ∧
        ∀ c ∈ x.map.chain (x.child p i).cluster, y.map.get? c = x.map.get? c ∧
          (c ∈ directories → c ∈ directories') ∧ (c ∈ files → c ∈ files') := by
    intro p hp i hused
    have hp := hparent hp hused
    have hchild := h.child_of_agreeOff hagree hfree hp i
    rw [hchild] at hused
    refine ⟨hp, hchild, fun c hc => ⟨h.get?_of_agreeOff hagree hfree hp hused c hc, ?_, ?_⟩⟩
    · exact fun hc => (hdirectories c).mpr (.inl hc)
    · exact fun hc => (hfiles c).mpr (.inl hc)
  obtain ⟨hsound, hnames, howner, hloopless⟩ := h.children_of_keeps hkeeps
  constructor
  · rw [hagree.boot, h.signed]
  · exact hsaved
  · have hlow {c : UInt32} (hc : isData c = false) : ¬ P c := fun hP => by
      rw [(hfree c hP).1] at hc
      contradiction
    rw [hagree.entry 0 (hlow rfl), hagree.entry 1 (hlow rfl)]
    exact h.reserved
  · exact (hdirectories _).mpr (.inl h.root_mem)
  · exact hdisjoint
  · intro c
    by_cases hP : P c
    · rw [hnew c hP]
      exact ⟨fun hne => ⟨(hfree c hP).1, hne⟩, fun hne => hne.2⟩
    · rw [hagree.entry c hP, ← h.occupied c, hdirectories c, hfiles c]
      simp only [hP, false_and, or_false]
  · intro c hc
    rcases (hdirectories c).mp hc with hc | ⟨hP, hc⟩
    · have haccepts := h.accepts c hc
      have hentry := hagree.entry c (h.not_of_free hfree (.inl hc))
      simp only [Contents.accepts, isTerminal, hentry,
        h.table_of_agreeOff hagree hfree hc] at haccepts ⊢
      exact haccepts
    · exact (hempty c hP hc).1
  · exact hsound
  · exact hnames
  · exact howner
  · exact hloopless

/-- A child may be exchanged for an unused entry, or for a sound one under a new name whose clusters
no other child refers to. -/
theorem setEntry (h : x.Structured directories files) (hp : p ∈ directories) (i : Fin 62)
    (e : Entry) (hsound : e.isUsed = true → x.Sound directories files e)
    (hname : e.isUsed = true → ∀ j, (x.child p j).isUsed = true → (x.child p j).name = e.name →
      j = i)
    (howner : e.isUsed = true → ∀ q ∈ directories, ∀ j c, (x.child q j).isUsed = true →
      c ∈ x.map.chain e.cluster → c ∈ x.map.chain (x.child q j).cluster → q = p ∧ j = i)
    (hloopless : e.isUsed = true → p ∉ x.map.chain e.cluster) :
    (x.setEntry p i e).Structured directories files := by
  constructor
  · exact h.signed
  · rw [cluster_setEntry_of_ne x i e (h.ne_mapCluster hp).symm, map_setEntry]
    exact h.saved
  · exact h.reserved
  · exact h.root_mem
  · exact h.apart
  · exact h.occupied
  · intro c hc
    rw [accepts_setEntry]
    exact h.accepts c hc
  · intro q hq j hused
    rw [child_setEntry] at hused ⊢
    split_ifs at hused ⊢ with hold
    · exact ⟨(hsound hused).directory, (hsound hused).file⟩
    · have hold := h.sound q hq j hused
      exact ⟨hold.directory, hold.file⟩
  · intro q hq j k hj hk hnames
    rw [child_setEntry] at hj hnames
    rw [child_setEntry] at hk hnames
    split_ifs at hj hk hnames with hnew hnew' hnew'
    · rw [hnew.2, hnew'.2]
    · rw [hnew.2]
      exact (hname hj k (hnew.1 ▸ hk) (hnew.1 ▸ hnames.symm)).symm
    · rw [hnew'.2]
      exact hname hk j (hnew'.1 ▸ hj) (hnew'.1 ▸ hnames)
    · exact h.names q hq j k hj hk hnames
  · intro q hq r hr j k c hj hk hcj hck
    rw [child_setEntry] at hj hcj
    rw [child_setEntry] at hk hck
    split_ifs at hj hk hcj hck with hnew hnew' hnew'
    · exact ⟨hnew.1.trans hnew'.1.symm, hnew.2.trans hnew'.2.symm⟩
    · obtain ⟨hr, hk⟩ := howner hj r hr k c hk hcj hck
      exact ⟨hnew.1.trans hr.symm, hnew.2.trans hk.symm⟩
    · obtain ⟨hq, hj⟩ := howner hk q hq j c hj hck hcj
      exact ⟨hq.trans hnew'.1.symm, hj.trans hnew'.2.symm⟩
    · exact h.owner q hq r hr j k c hj hk hcj hck
  · intro q hq j hused
    rw [child_setEntry] at hused ⊢
    split_ifs at hused ⊢ with hnew
    · rw [hnew.1]
      exact hloopless hused
    · exact h.loopless q hq j hused

/-- A child may be removed. -/
theorem erase (h : x.Structured directories files) (hp : p ∈ directories) (i : Fin 62) :
    (x.setEntry p i .empty).Structured directories files :=
  h.setEntry hp i .empty (fun hused => nomatch hused) (fun hused => nomatch hused)
    (fun hused => nomatch hused) (fun hused => nomatch hused)

/-- Clusters other than the root that no child refers to may be released. -/
theorem release (h : x.Structured directories files) {clusters : List UInt32} {m : AllocationMap}
    (hm : ∀ c, m.get? c = if c ∈ clusters then some unused else x.map.get? c)
    (hdata : ∀ c ∈ clusters, isData c = true) (hroot : rootCluster ∉ clusters)
    (hunowned : ∀ p ∈ directories, ∀ i, (x.child p i).isUsed = true →
      ∀ c ∈ x.map.chain (x.child p i).cluster, c ∉ clusters) :
    (x.withMap m).saveMap.Structured (directories.filter (· ∉ clusters))
      (files.filter (· ∉ clusters)) := by
  have hkeep {c : UInt32} (hc : c ∉ clusters) : m.get? c = x.map.get? c := by rw [hm, if_neg hc]
  have hkeeps : ∀ p ∈ directories.filter (· ∉ clusters), ∀ i,
      ((x.withMap m).saveMap.child p i).isUsed = true →
      p ∈ directories ∧ (x.withMap m).saveMap.child p i = x.child p i ∧
        ∀ c ∈ x.map.chain (x.child p i).cluster, m.get? c = x.map.get? c ∧
          (c ∈ directories → c ∈ directories.filter (· ∉ clusters)) ∧
          (c ∈ files → c ∈ files.filter (· ∉ clusters)) := by
    intro p hp i hused
    have hp := (Finset.mem_filter.mp hp).1
    have hchild : (x.withMap m).saveMap.child p i = x.child p i := by
      simp only [child, table_release x m (h.ne_mapCluster hp)]
    rw [hchild] at hused
    refine ⟨hp, hchild, fun c hc => ?_⟩
    have hclear := hunowned p hp i hused c hc
    exact ⟨hkeep hclear, fun hmem => Finset.mem_filter.mpr ⟨hmem, hclear⟩,
      fun hmem => Finset.mem_filter.mpr ⟨hmem, hclear⟩⟩
  obtain ⟨hsound, hnames, howner, hloopless⟩ := h.children_of_keeps hkeeps
  constructor
  · exact h.signed
  · rw [cluster_saveMap_self, map_saveMap]
  · have hlow {c : UInt32} (hc : isData c = false) : c ∉ clusters := fun hmem => by
      rw [hdata c hmem] at hc
      contradiction
    rw [map_saveMap, map_withMap, hkeep (hlow rfl), hkeep (hlow rfl)]
    exact h.reserved
  · exact Finset.mem_filter.mpr ⟨h.root_mem, hroot⟩
  · exact (h.apart.mono_left (Finset.filter_subset _ _)).mono_right (Finset.filter_subset _ _)
  · intro c
    simp only [Finset.mem_filter, ← or_and_right, h.occupied c, map_saveMap, map_withMap]
    by_cases hc : c ∈ clusters
    · simp [hc, hm c]
    · simp [hc, hkeep hc]
  · intro c hc
    obtain ⟨hc, hnot⟩ := Finset.mem_filter.mp hc
    rw [accepts_release (hkeep hnot) (h.isData_of_mem (.inl hc))]
    exact h.accepts c hc
  · exact hsound
  · exact hnames
  · exact howner
  · exact hloopless

end Structured

end ClusterFs.Contents
