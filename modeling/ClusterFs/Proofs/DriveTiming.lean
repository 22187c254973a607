import ClusterFs.Proofs.DriveContract

/-!
Commands to a busy drive. A command for sectors is issued once the drive has stopped answering busy.
The flush that ends a write follows the last sector at once, so over any run of transfers all
commands find the drive idle exactly if no delay is left after a write whose sectors were all
stored.
-/
namespace ClusterFs.Ata

/-- A transfer asked of a disk. -/
inductive Access where
  | read (lba count capacity : Nat)
  | write (bytes : Array UInt8) (lba count : Nat)

namespace Access

def count : Access → Nat
  | .read _ count _ | .write _ _ count => count

/-- Whether a transfer is a write that gets to its flush: it is in range, and every sector of it can
be written. -/
def Flushes (d : Disk) : Access → Prop
  | .read .. => False
  | .write bytes lba count =>
    count * sectorSize ≤ bytes.size ∧ lba + count ≤ min d.sectors addressLimit ∧
      ∀ i < count, d.drive.canMove .write (lba + i) = true

end Access

theorem Drive.movable_eq_iff {d : Drive} {kind : TransferKind} {lba n : Nat} :
    d.movable kind lba n = n ↔ ∀ i < n, d.canMove kind (lba + i) = true :=
  ⟨fun h _ hi => canMove_of_lt_movable (h.symm ▸ hi), movable_of_forall⟩

theorem Issued.code_eq {code : UInt8} {lba count moved : Nat} {commands : List Command}
    (h : Issued code lba count moved commands) : ∀ c ∈ commands, c.code = code := by
  induction h with
  | done => exact List.forall_mem_nil _
  | next hcode _ _ _ ih => exact List.forall_mem_cons.mpr ⟨hcode, ih⟩
  | stopped hcode => exact List.forall_mem_singleton.mpr hcode

namespace Disk

variable {d : Disk} {a : Access} {lba count bufferSize : Nat}

theorem refusal_eq_none_iff : d.refusal lba count bufferSize = none ↔
    count * sectorSize ≤ bufferSize ∧ lba + count ≤ min d.sectors addressLimit := by
  unfold refusal
  split_ifs with hshort hpast
  · simp only [false_iff]
    omega
  · simp only [false_iff]
    omega
  · simp only [true_iff]
    omega

/-! ### One transfer -/

def access (d : Disk) : Access → Disk
  | .read lba count capacity => (BlockDevice.read d lba count capacity).1
  | .write bytes lba count => (BlockDevice.write d bytes lba count).1

/-- What a transfer leaves: the commands `sent` for its sectors, each to an idle drive, and if it
got there the command `flushed`, to a drive that owes all of the delay after the last sector. -/
structure Accessed (d : Disk) (a : Access) (sent flushed : List Command) : Prop where
  sectors : (d.access a).sectors = d.sectors
  kept : d.drive.Kept (d.access a).drive
  commands : (d.access a).drive.commands.toList = d.drive.commands.toList ++ (sent ++ flushed)
  sending : ∀ c ∈ sent, c.code ≠ codeFlush ∧ c.owed = 0
  flushing : ∀ c ∈ flushed, c.code = codeFlush ∧ c.owed = d.drive.owedAfter a.count
  flushes : flushed ≠ [] ↔ a.Flushes d

theorem Accessed.of_refused (h : d.access a = d) (hflushes : ¬ a.Flushes d) :
    d.Accessed a [] [] where
  sectors := by rw [h]
  kept := by
    rw [h]
    exact .refl d.drive
  commands := by rw [h, List.append_nil, List.append_nil]
  sending := List.forall_mem_nil _
  flushing := List.forall_mem_nil _
  flushes := iff_of_false (fun hne => hne rfl) hflushes

theorem exists_accessed_read (hd : d.drive.present = true) (lba count capacity : Nat) :
    ∃ sent, d.Accessed (.read lba count capacity) sent [] := by
  cases hrefusal : d.refusal lba count capacity with
  | some e =>
    have hsame : d.access (.read lba count capacity) = d := by
      show (d.read lba count capacity).1 = d
      rw [read, hrefusal]
    exact ⟨[], .of_refused hsame not_false⟩
  | none =>
    obtain ⟨hroom, hrange⟩ := refusal_eq_none_iff.mp hrefusal
    obtain ⟨e, sent, hread, hkept, -, hcommands, hissued, hidle⟩ := read_eq hd hrange hroom rfl
    have hafter : d.access (.read lba count capacity) = ⟨d.sectors, e⟩ := congrArg Prod.fst hread
    refine ⟨sent, by rw [hafter], by rw [hafter]; exact hkept, ?_, fun c hc => ?_,
      List.forall_mem_nil _, iff_of_false (fun hne => hne rfl) not_false⟩
    · rw [hafter, List.append_nil]
      exact hcommands
    · rw [hissued.code_eq c hc]
      exact ⟨by decide, hidle c hc⟩

theorem exists_accessed_write (hd : d.drive.present = true) (bytes : Array UInt8)
    (lba count : Nat) : ∃ sent flushed, d.Accessed (.write bytes lba count) sent flushed := by
  cases hrefusal : d.refusal lba count bytes.size with
  | some e =>
    have hsame : d.access (.write bytes lba count) = d := by
      show (d.write bytes lba count).1 = d
      rw [write, hrefusal]
    have hflushes : ¬ (Access.write bytes lba count).Flushes d := by
      rintro ⟨hroom, hrange, -⟩
      rw [refusal_eq_none_iff.mpr ⟨hroom, hrange⟩] at hrefusal
      cases hrefusal
    exact ⟨[], [], .of_refused hsame hflushes⟩
  | none =>
    obtain ⟨hroom, hrange⟩ := refusal_eq_none_iff.mp hrefusal
    obtain ⟨e, sent, flushed, hwrite, hkept, -, hcommands, hissued, hcodes, hidle, howed⟩ :=
      write_eq hd hrange hroom rfl
    have hafter : d.access (.write bytes lba count) = ⟨d.sectors, e⟩ := congrArg Prod.fst hwrite
    have hflushes : (Access.write bytes lba count).Flushes d ↔
        d.drive.movable .write lba count = count := by
      rw [Drive.movable_eq_iff]
      exact ⟨fun h => h.2.2, fun h => ⟨hroom, hrange, h⟩⟩
    refine ⟨sent, flushed, by rw [hafter], by rw [hafter]; exact hkept, ?_, fun c hc => ?_,
      fun c hc => ⟨?_, howed c hc⟩, ?_⟩
    · rw [hafter, ← List.append_assoc]
      exact hcommands
    · rw [hissued.code_eq c hc]
      exact ⟨by decide, hidle c hc⟩
    · have hcode := List.mem_map_of_mem (f := (·.code)) hc
      rw [hcodes] at hcode
      split_ifs at hcode
      · exact List.mem_singleton.mp hcode
      · cases hcode
    · have hnil : flushed = [] ↔ flushed.map (·.code) = [] := List.map_eq_nil_iff.symm
      rw [hflushes, Ne, hnil, hcodes]
      split_ifs with hall <;> simp [hall]

theorem exists_accessed (hd : d.drive.present = true) (a : Access) :
    ∃ sent flushed, d.Accessed a sent flushed := by
  cases a with
  | read lba count capacity =>
    obtain ⟨sent, h⟩ := exists_accessed_read hd lba count capacity
    exact ⟨sent, [], h⟩
  | write bytes lba count => exact exists_accessed_write hd bytes lba count

/-- All commands of a transfer find the drive idle if no delay is left when it gets to its flush. -/
theorem Accessed.idle_iff {sent flushed : List Command} (h : d.Accessed a sent flushed) :
    (∀ c ∈ sent ++ flushed, c.owed = 0) ↔ (a.Flushes d → d.drive.owedAfter a.count = 0) := by
  rw [List.forall_mem_append, ← h.flushes]
  constructor
  · rintro ⟨-, hidle⟩ hne
    obtain ⟨c, hc⟩ := List.exists_mem_of_ne_nil flushed hne
    rw [← (h.flushing c hc).2]
    exact hidle c hc
  · intro howed
    refine ⟨fun c hc => (h.sending c hc).2, fun c hc => ?_⟩
    rw [(h.flushing c hc).2]
    exact howed (List.ne_nil_of_mem hc)

/-! ### Runs -/

/-- One transfer after another, whatever becomes of each. -/
def run (d : Disk) (accesses : List Access) : Disk := accesses.foldl access d

/-- The commands that a run adds to the drive's record. -/
def issued (d : Disk) (accesses : List Access) : List Command :=
  (d.run accesses).drive.commands.toList.drop d.drive.commands.size

theorem commands_run (hd : d.drive.present = true) (accesses : List Access) :
    (d.run accesses).drive.commands.toList = d.drive.commands.toList ++ d.issued accesses := by
  have hadded : ∃ added,
      (d.run accesses).drive.commands.toList = d.drive.commands.toList ++ added := by
    induction accesses generalizing d with
    | nil => exact ⟨[], (List.append_nil _).symm⟩
    | cons a rest ih =>
      obtain ⟨sent, flushed, h⟩ := exists_accessed hd a
      obtain ⟨added, hadded⟩ := ih (h.kept.present.trans hd)
      refine ⟨sent ++ flushed ++ added, ?_⟩
      rw [← List.append_assoc, ← h.commands]
      exact hadded
  obtain ⟨added, hadded⟩ := hadded
  rw [issued, hadded, ← Array.length_toList, List.drop_left]

/-- The commands of a run are those of its first transfer and those of the rest. -/
theorem Accessed.issued_cons {sent flushed : List Command} (h : d.Accessed a sent flushed)
    (hd : d.drive.present = true) (rest : List Access) :
    d.issued (a :: rest) = sent ++ flushed ++ (d.access a).issued rest := by
  have hrest := commands_run (h.kept.present.trans hd) rest
  have hall := commands_run hd (a :: rest)
  rw [h.commands, List.append_assoc] at hrest
  exact List.append_cancel_left (hall.symm.trans hrest)

/-- Which writes get to their flush does not change from one transfer to the next. -/
theorem Accessed.flushes_iff {sent flushed : List Command} (h : d.Accessed a sent flushed)
    (b : Access) : b.Flushes (d.access a) ↔ b.Flushes d := by
  cases b with
  | read lba count capacity => exact Iff.rfl
  | write bytes lba count => simp only [Access.Flushes, h.sectors, h.kept.canMove]

/-- On every drive, however often it answers busy, and over every run of transfers: a command for
sectors finds the drive idle. All commands do exactly if each write that gets to its flush leaves
the drive with no delay after the last sector. -/
theorem commands_idle_iff (hd : d.drive.present = true) (accesses : List Access) :
    (∀ c ∈ d.issued accesses, c.code ≠ codeFlush → c.owed = 0) ∧
    ((∀ c ∈ d.issued accesses, c.owed = 0) ↔
      ∀ before a after, accesses = before ++ a :: after → a.Flushes d →
        (d.run before).drive.owedAfter a.count = 0) := by
  induction accesses generalizing d with
  | nil =>
    have hnone : d.issued [] = [] := List.self_eq_append_right.mp (commands_run hd [])
    rw [hnone]
    refine ⟨List.forall_mem_nil _, iff_of_true (List.forall_mem_nil _) fun before a after h => ?_⟩
    exact absurd h.symm (List.append_ne_nil_of_right_ne_nil before (List.cons_ne_nil a after))
  | cons b rest ih =>
    obtain ⟨sent, flushed, h⟩ := exists_accessed hd b
    obtain ⟨hcodes, hidle⟩ := ih (h.kept.present.trans hd)
    rw [h.issued_cons hd rest]
    refine ⟨fun c hc hcode => ?_, ?_⟩
    · rcases List.mem_append.mp hc with hfirst | hlater
      · rcases List.mem_append.mp hfirst with hsent | hflushed
        · exact (h.sending c hsent).2
        · exact absurd (h.flushing c hflushed).1 hcode
      · exact hcodes c hlater hcode
    · rw [List.forall_mem_append, h.idle_iff, hidle]
      constructor
      · rintro ⟨hfirst, hlater⟩ before a after hsplit hflushes
        cases before with
        | nil =>
          obtain ⟨rfl, -⟩ := List.cons_eq_cons.mp hsplit
          exact hfirst hflushes
        | cons a' before =>
          obtain ⟨rfl, hrest⟩ := List.cons_eq_cons.mp hsplit
          exact hlater before a after hrest ((h.flushes_iff a).mpr hflushes)
      · intro hall
        refine ⟨fun hflushes => hall [] b rest rfl hflushes,
          fun before a after hrest hflushes => ?_⟩
        have hsplit := congrArg (List.cons b) hrest
        exact hall (b :: before) a after hsplit ((h.flushes_iff a).mp hflushes)

/-- Three sectors are written to a worn disk with no delay after the last, and others are read. -/
theorem worn_commands_idle : worn.drive.present = true ∧
    ∀ c ∈ worn.issued [.write (Array.replicate 1536 1) 0 3, .read 400 600 307200], c.owed = 0 := by
  refine ⟨rfl, (commands_idle_iff (d := worn) rfl _).2.mpr fun before a after hsplit hflushes => ?_⟩
  cases before with
  | nil =>
    obtain ⟨rfl, -⟩ := List.cons_eq_cons.mp hsplit
    rfl
  | cons b before =>
    have hmem : a ∈ [Access.read 400 600 307200] := by
      rw [(List.cons_eq_cons.mp hsplit).2]
      exact List.mem_append_right before List.mem_cons_self
    obtain rfl := List.mem_singleton.mp hmem
    exact hflushes.elim

/-- A drive that answers busy three times after each command and each sector. -/
def slow : Disk where
  sectors := 2048
  drive :=
    { image := Array.replicate 1048576 0
      reportedSectors := 2048
      delays := fun _ => 3 }

/-- The flush after one sector is written to a slow drive finds it busy. -/
theorem slow_flushed_busy :
    slow.drive.present = true ∧ slow.drive.owed = 0 ∧
      slow.refusal 0 1 (Array.replicate 512 (7 : UInt8)).size = none ∧
      ∃ c ∈ slow.issued [.write (Array.replicate 512 7) 0 1], c.code = codeFlush ∧ c.owed = 3 := by
  have hsize : (Array.replicate 512 (7 : UInt8)).size = 512 := Array.size_replicate
  have hmove : slow.drive.canMove .write 0 = true := by
    have hend : (0 + 1) * sectorSize ≤ slow.drive.image.size := by
      simp only [slow, Array.size_replicate]
      decide
    rw [Drive.canMove_write hend]
    rfl
  have hflushes : (Access.write (Array.replicate 512 7) 0 1).Flushes slow := by
    refine ⟨by rw [hsize]; decide, by decide, fun i hi => ?_⟩
    obtain rfl : i = 0 := by omega
    exact hmove
  obtain ⟨sent, flushed, h⟩ := exists_accessed (d := slow) rfl (.write (Array.replicate 512 7) 0 1)
  obtain ⟨c, hc⟩ := List.exists_mem_of_ne_nil flushed (h.flushes.mpr hflushes)
  obtain ⟨hcode, howed⟩ := h.flushing c hc
  refine ⟨rfl, rfl, refusal_eq_none_iff.mpr ⟨hflushes.1, hflushes.2.1⟩, c, ?_, hcode, howed⟩
  rw [h.issued_cons rfl []]
  exact List.mem_append_left _ (List.mem_append_right sent hc)

end Disk

end ClusterFs.Ata
