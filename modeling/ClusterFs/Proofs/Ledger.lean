import ClusterFs.Proofs.FileData
import ClusterFs.Proofs.Invariant
import ClusterFs.Proofs.Requests
import Mathlib.Order.Interval.Finset.Nat

/-!
The ledger of a volume. Every write that succeeds opens an account for the clusters of its data, and
every delete that succeeds closes the latest account under its name; what a deleted directory held
keeps its accounts. The accounts and the free clusters make up the volume, so nothing else takes or
releases a cluster.
-/
namespace ClusterFs

namespace Contents.Structured
open AllocationMap Volume

variable {x : Contents} {directories files : Finset UInt32}

/-- Every data cluster is free, a directory or a cluster of a file. -/
theorem freeCount_add (h : x.Structured directories files) :
    x.map.freeCount + (directories.card + files.card) = 510 := by
  have hfree : Disjoint x.map.freeClusters.toFinset (directories ∪ files) := by
    rw [Finset.disjoint_left]
    intro c hc hmem
    obtain ⟨-, hunused⟩ := mem_freeClusters.mp (List.mem_toFinset.mp hc)
    exact h.ne_unused_of_mem (Finset.mem_union.mp hmem) hunused
  have hall : (x.map.freeClusters.toFinset ∪ (directories ∪ files)).image UInt32.toNat =
      Finset.Ico 2 512 := by
    ext i
    simp only [Finset.mem_image, Finset.mem_union, List.mem_toFinset, mem_freeClusters, h.occupied,
      Finset.mem_Ico]
    constructor
    · rintro ⟨c, hc, rfl⟩
      exact isData_iff.mp (hc.elim And.left And.left)
    · intro hi
      have hindex : (UInt32.ofNat i).toNat = i :=
        UInt32.toNat_ofNat_of_lt' (Nat.lt_trans hi.2 (by decide))
      have hdata : isData (UInt32.ofNat i) = true := isData_iff.mpr (by rwa [hindex])
      exact ⟨_, (em _).imp (⟨hdata, ·⟩) (⟨hdata, ·⟩), hindex⟩
  have hcard := congrArg Finset.card hall
  rw [Finset.card_image_of_injective _ fun _ _ => UInt32.toNat_inj.mp, Nat.card_Ico,
    Finset.card_union_of_disjoint hfree, Finset.card_union_of_disjoint h.apart,
    List.toFinset_card_of_nodup (nodup_freeClusters _), ← freeCount_eq] at hcard
  exact hcard

/-- A write takes as many clusters as its data requires. -/
theorem card_write (h : x.Structured directories files) {parent : UInt32} {name : ShortName}
    {data : Payload} {p : Placement}
    (hplace : place x.map (x.table parent) name data.size = .ok p) :
    (directories ∪ newDirectories data p).card + (files ∪ newFiles data p).card =
      directories.card + files.card + requiredClusters data.size := by
  obtain ⟨hlength, hnodup, hfree, hfirst⟩ := placement_clusters hplace
  have hnot {c : UInt32} (hc : c ∈ p.clusters) : ¬ (c ∈ directories ∨ c ∈ files) := fun hmem =>
    h.ne_unused_of_mem hmem (hfree c hc).2
  have hdirectories : Disjoint directories (newDirectories data p) := by
    rw [Finset.disjoint_left]
    intro c hc hnew
    exact hnot ((mem_newDirectories.mp hnew).2 ▸ hfirst) (.inl hc)
  have hfiles : Disjoint files (newFiles data p) := by
    rw [Finset.disjoint_left]
    exact fun c hc hnew => hnot (mem_newFiles.mp hnew).2 (.inr hc)
  have hnew : (newDirectories data p).card + (newFiles data p).card =
      requiredClusters data.size := by
    unfold newDirectories newFiles
    split_ifs with hsize
    · rw [hsize, Finset.card_singleton, Finset.card_empty]
      rfl
    · rw [Finset.card_empty, List.toFinset_card_of_nodup hnodup, hlength, Nat.zero_add]
  rw [Finset.card_union_of_disjoint hdirectories, Finset.card_union_of_disjoint hfiles]
  omega

/-- A delete releases the clusters of the chain. -/
theorem card_delete (h : x.Structured directories files) {parent : UInt32}
    (hparent : parent ∈ directories) {i : Fin 62} (hused : (x.child parent i).isUsed = true) :
    (directories.filter (· ∉ x.map.chain (x.child parent i).cluster)).card +
        (files.filter (· ∉ x.map.chain (x.child parent i).cluster)).card +
        (x.map.chain (x.child parent i).cluster).length =
      directories.card + files.card := by
  obtain ⟨-, hnodup, hmem⟩ := h.extent hparent hused
  generalize x.map.chain (x.child parent i).cluster = chain at hnodup hmem ⊢
  have hchain : directories.filter (· ∈ chain) ∪ files.filter (· ∈ chain) = chain.toFinset := by
    rw [← Finset.filter_union]
    ext c
    rw [Finset.mem_filter, Finset.mem_union, List.mem_toFinset, and_iff_right_of_imp (hmem c)]
  have hcard := congrArg Finset.card hchain
  rw [Finset.card_union_of_disjoint (Finset.disjoint_filter_filter h.apart),
    List.toFinset_card_of_nodup hnodup] at hcard
  have hdirectories := Finset.card_filter_add_card_filter_not (s := directories) (· ∈ chain)
  have hfiles := Finset.card_filter_add_card_filter_not (s := files) (· ∈ chain)
  omega

/-- A directory that was just made has no entries. -/
theorem lookup_newDirectory (h : x.Structured directories files) {parent q : UInt32}
    {name n : ShortName} {data : Payload} {p : Placement} (hparent : parent ∈ directories)
    (hplace : place x.map (x.table parent) name data.size = .ok p)
    (hq : q ∈ newDirectories data p) (e : Entry) :
    (x.applyAll (writeSteps parent (x.table parent) name data p)).lookup q n ≠ .ok e := by
  obtain ⟨hsize, rfl⟩ := mem_newDirectories.mp hq
  obtain ⟨-, -, hfree, hfirst⟩ := placement_clusters hplace
  obtain ⟨-, hend, hcluster⟩ := (stored_contentSteps (x := x) hplace).directory hsize
  rw [h.applyAll_writeSteps hparent hplace]
  intro hlookup
  obtain ⟨-, i, rfl, hused, -⟩ := exists_child_of_lookup hlookup
  have hne : p.first ≠ parent := by
    rintro rfl
    exact h.not_of_free hfree (.inl hparent) hfirst
  rw [child_setEntry, if_neg fun hsame => hne hsame.1,
    (accepts_of_create (hfree _ hfirst).1 hend hcluster).2 i] at hused
  contradiction

end Contents.Structured

/-! ### Accounts -/

/-- What a write took: the name of its own entry, and the size of its data. -/
structure Account where
  parent : UInt32
  name : ShortName
  size : Nat

namespace Account

/-- The clusters of the data. An empty write makes a directory, which takes one. -/
def clusters (a : Account) : Nat := max 1 ((a.size + 2047) / 2048)

theorem clusters_eq (a : Account) : a.clusters = requiredClusters a.size :=
  (requiredClusters_eq_max a.size).symm

def names (parent : UInt32) (name : ShortName) (a : Account) : Bool :=
  decide (a.parent = parent ∧ a.name = name)

/-- To close the first account that passes takes its clusters from the sum. -/
theorem sum_eraseP {accounts : List Account} {a : Account} {passes : Account → Bool}
    (h : accounts.find? passes = some a) :
    ((accounts.eraseP passes).map clusters).sum + a.clusters = (accounts.map clusters).sum := by
  induction accounts with
  | nil => cases h
  | cons b rest ih =>
    cases hb : passes b with
    | true =>
      rw [List.find?_cons_of_pos hb] at h
      obtain rfl := Option.some.inj h
      rw [List.eraseP_cons_of_pos hb, List.map_cons, List.sum_cons, Nat.add_comm]
    | false =>
      have hneg : ¬ passes b = true := Bool.eq_false_iff.mp hb
      rw [List.find?_cons_of_neg hneg] at h
      rw [List.eraseP_cons_of_neg hneg, List.map_cons, List.map_cons, List.sum_cons, List.sum_cons,
        Nat.add_assoc, ih h]

/-- Accounts that do not pass are found as before. -/
theorem find?_eraseP {accounts : List Account} {passes wanted : Account → Bool}
    (h : ∀ a, wanted a = true → passes a = false) :
    (accounts.eraseP passes).find? wanted = accounts.find? wanted := by
  induction accounts with
  | nil => rfl
  | cons b rest ih =>
    cases hb : passes b with
    | true =>
      have hneg : ¬ wanted b = true := fun hw => by
        rw [h b hw] at hb
        contradiction
      rw [List.eraseP_cons_of_pos hb, List.find?_cons_of_neg hneg]
    | false =>
      rw [List.eraseP_cons_of_neg (Bool.eq_false_iff.mp hb), List.find?_cons, List.find?_cons, ih]

end Account

namespace Session
open AllocationMap Contents Volume

variable {D : Type} [BlockDevice D] {S : Storage D} {s t : Session D} {a : Action}
  {accounts : List Account} {actions : List Action}

/-- The accounts after an action. A write that succeeds opens one, and a delete that succeeds closes
the latest one under its name. -/
def book (s : Session D) (accounts : List Account) : Action → List Account
  | .write parent name data =>
    match (s.volume.write parent name data).outcome with
    | .ok _ => ⟨parent, name, data.size⟩ :: accounts
    | .error _ => accounts
  | .delete parent name =>
    match (s.volume.delete parent name).outcome with
    | .ok () => accounts.eraseP (Account.names parent name)
    | .error _ => accounts
  | _ => accounts

/-- The accounts after a list of actions; they end where a mount fails. -/
def ledger (s : Session D) (accounts : List Account) : List Action → List Account
  | [] => accounts
  | a :: rest =>
    match s.step a with
    | .ok t => t.ledger (s.book accounts a) rest
    | .error _ => s.book accounts a

theorem Run.ledger_append {allowed : Session D → Action → Session D → Prop}
    (h : Run allowed s actions t) (accounts : List Account) (rest : List Action) :
    s.ledger accounts (actions ++ rest) = t.ledger (s.ledger accounts actions) rest := by
  induction h generalizing rest with
  | nil => rfl
  | @snoc actions t u a _ hstep _ ih =>
    rw [List.append_assoc, ih, ih]
    simp only [List.singleton_append, ledger, hstep]

theorem book_of_refused (h : a.changes = true → ∃ e, s.volume.outcome a = .error e)
    (accounts : List Account) : s.book accounts a = accounts := by
  cases a with
  | write parent name data =>
    obtain ⟨e, he⟩ := h rfl
    simp only [book, Reply.discard_eq_error_iff.mp he]
  | delete parent name =>
    obtain ⟨e, he⟩ := h rfl
    have houtcome : (s.volume.delete parent name).outcome = .error e := he
    simp only [book, houtcome]
  | _ => rfl

/-- The accounts of a session make up the clusters in use besides the root, and the first one under
the name of an entry has its size. -/
structure Booked (S : Storage D) (s : Session D) (accounts : List Account) : Prop where
  clusters : s.directories.card + s.files.card = 1 + (accounts.map Account.clusters).sum
  entries : ∀ p ∈ s.directories, ∀ n e, (S.contents s.volume).lookup p n = .ok e →
    accounts.find? (Account.names p n) = some ⟨p, n, e.size.toNat⟩

/-- Each effect keeps the accounts. -/
theorem Effect.booked (h : Effect S s a t)
    (hs : (S.contents s.volume).Structured s.directories s.files) (hb : s.Booked S accounts) :
    t.Booked S (s.book accounts a) := by
  cases h with
  | same hcontents hdirectories hfiles hrefused =>
    rw [book_of_refused hrefused]
    constructor
    · rw [hdirectories, hfiles]
      exact hb.clusters
    · rw [hdirectories, hcontents]
      exact hb.entries
  | @wrote parent name data _ p hparent hplace hcontents hdirectories hfiles houtcome =>
    have hbook : s.book accounts (.write parent name data) =
        ⟨parent, name, data.size⟩ :: accounts := by
      simp only [book, houtcome]
    have hclusters := Account.clusters_eq ⟨parent, name, data.size⟩
    have hword := (place_spec hplace).2.2.1
    rw [hbook]
    constructor
    · rw [hdirectories, hfiles, hs.card_write hplace, hb.clusters, List.map_cons, List.sum_cons,
        hclusters, Nat.add_assoc, Nat.add_comm (requiredClusters _)]
    · intro q hq n e hlookup
      rw [hdirectories] at hq
      rw [hcontents] at hlookup
      rcases Finset.mem_union.mp hq with hq | hq
      · by_cases hsame : q = parent ∧ n = name
        · obtain ⟨rfl, rfl⟩ := hsame
          rw [hs.lookup_write hparent hplace] at hlookup
          obtain rfl := Except.ok.inj hlookup
          rw [List.find?_cons_of_pos (by simp [Account.names]), newEntry, Entry.size_create,
            UInt32.toNat_ofNat_of_lt' hword]
        · have hneg : ¬ Account.names q n ⟨parent, name, data.size⟩ = true := fun hnames =>
            hsame ((of_decide_eq_true hnames).imp Eq.symm Eq.symm)
          rw [(hs.sameView_write hparent hplace hq hsame).lookup] at hlookup
          rw [List.find?_cons_of_neg hneg, hb.entries q hq n e hlookup]
      · exact absurd hlookup (hs.lookup_newDirectory hparent hplace hq e)
  | @deleted parent name _ i hparent hlocate hcontents hdirectories hfiles houtcome =>
    have hbook : s.book accounts (.delete parent name) =
        accounts.eraseP (Account.names parent name) := by
      simp only [book, houtcome]
    obtain ⟨-, hused, -, hlookup⟩ := exists_child_of_locate hlocate
    have hfind := hb.entries parent hparent name _ hlookup
    have hsum := Account.sum_eraseP hfind
    have hbooked := hb.clusters
    have hcard : t.directories.card + t.files.card +
        requiredClusters ((S.contents s.volume).child parent i).size.toNat =
          s.directories.card + s.files.card := by
      rw [hdirectories, hfiles, ← hs.length_chain hparent hused]
      exact hs.card_delete hparent hused
    rw [Account.clusters_eq] at hsum
    dsimp only at hsum
    rw [hbook]
    constructor
    · omega
    · intro q hq n e hlookup'
      rw [hdirectories] at hq
      obtain ⟨hq, hkept⟩ := Finset.mem_filter.mp hq
      rw [hcontents] at hlookup'
      by_cases hsame : q = parent ∧ n = name
      · obtain ⟨rfl, rfl⟩ := hsame
        cases hlookup'.symm.trans (hs.lookup_delete hlocate hparent)
      · have hview := hs.sameView_delete hlocate hparent hq hkept hsame
        have hbefore := hview.lookup.symm.trans hlookup'
        rw [Account.find?_eraseP fun a ha => ?_, hb.entries q hq n e hbefore]
        have hnames := of_decide_eq_true ha
        refine decide_eq_false fun hother => hsame ?_
        exact ⟨hnames.1.symm.trans hother.1, hnames.2.symm.trans hother.2⟩

/-- A fresh session has no accounts. -/
theorem booked_fresh {v : Volume D} (hx : (S.contents v).Structured {rootCluster} ∅)
    (htable : (S.contents v).table rootCluster = Directory.create Volume.rootName rootCluster) :
    (⟨v, {rootCluster}, ∅⟩ : Session D).Booked S [] where
  clusters := rfl
  entries p hp n e hlookup := by
    rw [Finset.mem_singleton.mp hp, lookup_of_accepts (hx.accepts _ hx.root_mem), htable,
      Directory.find?_create] at hlookup
    contradiction

/-- Every run keeps the accounts. -/
theorem Healthy.booked_run (hs : s.Healthy S) (hb : s.Booked S accounts)
    (h : Run (fun s a _ => s.Admits a) s actions t) :
    t.Booked S (s.ledger accounts actions) := by
  induction h with
  | nil => exact hb
  | @snoc actions t u a hrun hstep hadmits ih =>
    have ht := hs.run hrun
    have heffect := (ht.step (hadmits.parentsIn ht) hstep).2
    have hledger : t.ledger (s.ledger accounts actions) [a] =
        t.book (s.ledger accounts actions) a := by
      simp only [ledger, hstep]
    rw [hrun.ledger_append, hledger]
    exact heffect.booked ht.structured ih

end Session

/-! ### Deletes -/

/-- The clusters of an entry, all of them in use before, are free after, and no others change. -/
structure AllocationMap.Releases (before after : AllocationMap) (e : Entry) : Prop where
  length : (before.chain e.cluster).length = max 1 ((e.size.toNat + 2047) / 2048)
  nodup : (before.chain e.cluster).Nodup
  used : ∀ c ∈ before.chain e.cluster, before.get? c ≠ some unused
  after : ∀ c, after.get? c = if c ∈ before.chain e.cluster then some unused else before.get? c

/-- A volume on which no request finds a name. -/
structure Volume.Lacks {D : Type} [BlockDevice D] (v : Volume D) (parent : UInt32)
    (name : ShortName) : Prop where
  read : ∀ capacity, (v.read parent name capacity).outcome = .error .notFound
  readDirectory : ∀ capacity, (v.readDirectory parent name capacity).outcome = .error .notFound
  delete : (v.delete parent name).outcome = .error .notFound
  stat : (v.stat parent name).2 = .error .notFound

/-- On a device that works a name that the contents lack is lacking. -/
theorem Storage.lacks_of_lookup {D : Type} [BlockDevice D] {S : Storage D} {v : Volume D}
    (hv : S.Usable v.disk) {parent : UInt32} {name : ShortName}
    (h : (S.contents v).lookup parent name = .error .notFound) : v.Lacks parent name := by
  have hlocate : (S.contents v).locate parent name = .error .notFound := by
    rw [Contents.lookup_eq_map_locate] at h
    cases hlocate : (S.contents v).locate parent name with
    | error e =>
      rw [hlocate] at h
      exact congrArg _ (Except.error.inj h)
    | ok i =>
      rw [hlocate] at h
      contradiction
  constructor
  · intro capacity
    have hread := congrArg Prod.fst (read_answer hv parent name capacity)
    simpa only [Contents.readFile, h] using hread
  · intro capacity
    obtain ⟨-, -, hread, -⟩ := readTable_eq hv parent name capacity fun _ e he => by
      rw [h] at he
      contradiction
    have houtcome := congrArg Prod.fst hread
    simpa only [Contents.readTable, h] using houtcome
  · have hnone : ∀ i, (S.contents v).locate parent name ≠ .ok i := fun i hi => by
      rw [hlocate] at hi
      contradiction
    rcases delete_spec hv parent name fun i hi _ => absurd hi (hnone i) with
      ⟨e, d, hdelete, -, he⟩ | ⟨i, -, -, hi, -⟩
    · rw [hdelete, ← Except.error.inj (hlocate.symm.trans he)]
      rfl
    · exact absurd hi (hnone i)
  · rw [stat_snd hv, h]

namespace Session
open AllocationMap Contents

variable {D : Type} [BlockDevice D] {S : Storage D} {s t : Session D}

/-- A delete that succeeds releases exactly the clusters of the entry, which is not found after. -/
theorem Healthy.delete_releases (hs : s.Healthy S) {parent : UInt32} {name : ShortName}
    (hadmits : s.Admits (.delete parent name))
    (houtcome : (s.volume.delete parent name).outcome = .ok ()) :
    ∃ t e, s.step (.delete parent name) = .ok t ∧ (s.volume.stat parent name).2 = .ok e ∧
      s.volume.map.Releases t.volume.map e ∧ t.volume.Lacks parent name := by
  obtain ⟨t, hstep, ht, -, heffect⟩ := step_effect hs (hadmits.parentsIn hs)
  cases heffect with
  | same _ _ _ hrefused =>
    obtain ⟨e, he⟩ := hrefused rfl
    have herror : (s.volume.delete parent name).outcome = .error e := he
    rw [houtcome] at herror
    contradiction
  | @deleted _ _ _ i hparent hlocate hcontents hdirectories hfiles =>
    obtain ⟨-, hused, -, hlookup⟩ := exists_child_of_locate hlocate
    obtain ⟨hlinked, hnodup, hmem⟩ := hs.structured.extent hparent hused
    refine ⟨t, _, hstep, (Storage.stat_snd hs.usable parent name).trans hlookup, ?_, ?_⟩
    · constructor
      · have hlength := hs.structured.length_chain hparent hused
        rw [requiredClusters_eq_max] at hlength
        exact hlength
      · exact hnodup
      · exact fun c hc => hs.structured.ne_unused_of_mem (hmem c hc)
      · have hmap := congrArg Contents.map hcontents
        intro c
        rw [Storage.map_contents] at hmap
        rw [hmap]
        exact get?_freeChain_of_linked hlinked hnodup c
    · apply Storage.lacks_of_lookup ht
      rw [hcontents]
      exact hs.structured.lookup_delete hlocate hparent

/-- In every session that a run reaches from a formatted volume, the free clusters are those that no
open account takes, and a delete that succeeds releases exactly the clusters of its entry. -/
theorem ledger_balances {d : D} (hd : S.Usable d) (hwrites : S.writesLeft d = none) :
    ∃ s₀, fresh d = .ok s₀ ∧
      ∀ actions s, Run (fun s a _ => s.Admits a) s₀ actions s →
        let taken := ((s₀.ledger [] actions).map Account.clusters).sum
        taken ≤ 509 ∧ s.volume.map.freeCount = 509 - taken ∧
        ∀ parent name, s.Admits (.delete parent name) →
          (s.volume.delete parent name).outcome = .ok () →
            ∃ t e, s.step (.delete parent name) = .ok t ∧
              (s.volume.stat parent name).2 = .ok e ∧
              s.volume.map.Releases t.volume.map e ∧ t.volume.Lacks parent name := by
  obtain ⟨e, hfresh, hhealthy, htable⟩ := fresh_eq hd hwrites
  have hbooked := booked_fresh hhealthy.structured htable
  refine ⟨_, hfresh, fun actions s hrun => ?_⟩
  have hs := hhealthy.run hrun
  have hclusters := (hhealthy.booked_run hbooked hrun).clusters
  have hfree := hs.structured.freeCount_add
  rw [Storage.map_contents] at hfree
  refine ⟨by omega, by omega, fun parent name hadmits houtcome => ?_⟩
  exact hs.delete_releases hadmits houtcome

/-- A delete whose entry is located is carried out. -/
theorem Healthy.delete_ok (hs : s.Healthy S) {parent : UInt32} {name : ShortName} {i : Fin 62}
    (hparent : parent ∈ s.directories)
    (hlocate : (S.contents s.volume).locate parent name = .ok i) :
    (s.volume.delete parent name).outcome = .ok () := by
  rcases Storage.delete_spec hs.usable parent name fun i hlocate hdir =>
    covers_of_lookup hs (fun _ => hparent) (exists_child_of_locate hlocate).2.2.2 hdir with
    ⟨e, d, -, -, herror⟩ | ⟨i, done, rest, -, -, hadvance, -, hend⟩
  · cases hlocate.symm.trans herror
  · rcases hend with ⟨-, houtcome⟩ | ⟨hne, -⟩
    · exact houtcome
    · exact absurd (hadvance.writesLeft_eq_none hs.writes).2 hne

/-- A file of one byte in the root of a formatted disk in memory, and its delete. -/
theorem ledger_balances_one_file :
    ∃ s₀ s t, fresh (MemoryDisk.create 512) = .ok s₀ ∧
      Run (fun s a _ => s.Admits a) s₀ [.write rootCluster (.ofParts [65] []) (.ofArray #[7])] s ∧
      s.volume.map.freeCount = 508 ∧ s.step (.delete rootCluster (.ofParts [65] [])) = .ok t ∧
      t.volume.Lacks rootCluster (.ofParts [65] []) := by
  have hd := MemoryDisk.usable_create (Nat.le_refl 512)
  obtain ⟨s₀, hfresh, hall⟩ := ledger_balances hd rfl
  obtain ⟨hs₀, hwrite⟩ := first_write_ok hd rfl hfresh (.ofParts [65] []) (.ofArray #[7])
    (by decide)
  obtain ⟨s, i, hstep, hrun, hs, hlocate, -⟩ :=
    exists_first_write hd rfl hfresh (.ofParts [65] []) (.ofArray #[7]) (by decide)
  obtain ⟨-, hcount, hdelete⟩ := hall _ s hrun
  have hledger : s₀.ledger [] [.write rootCluster (.ofParts [65] []) (.ofArray #[7])] =
      [⟨rootCluster, .ofParts [65] [], 1⟩] := by
    simp only [ledger, hstep, book, hwrite]
    rfl
  have htaken : ([⟨rootCluster, .ofParts [65] [], 1⟩].map Account.clusters).sum = 1 := by
    simp [Account.clusters]
  rw [hledger, htaken] at hcount
  obtain ⟨t, e, ht, -, -, hlacks⟩ := hdelete rootCluster (.ofParts [65] [])
    (hs.admits fun _ h => Option.some.inj h ▸ hs.structured.root_mem)
    (hs.delete_ok hs.structured.root_mem hlocate)
  exact ⟨s₀, s, t, hfresh, hrun, hcount, ht, hlacks⟩

end Session

end ClusterFs
