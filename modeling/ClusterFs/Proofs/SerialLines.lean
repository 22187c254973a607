import ClusterFs.Kernel.Basic
import ClusterFs.Proofs.TextBytes
import Mathlib.Data.List.Basic

/-!
What the serial line does to the text of a log record. The parts of the line that other libraries
make are taken as they come, as long as a style puts its codes around a text, clusters partition a
piece, and a line feed is sent after a carriage return. Then a record is sent as its text but for
carriage returns, whatever its pieces, and each line feed that is sent follows a carriage return.
-/
namespace ClusterFs

namespace Serial

/-! ### What is promised of a line -/

/-- Bytes without those that the UART takes to erase. -/
def Plain (bytes : List UInt8) : Prop := ∀ b ∈ bytes, b ≠ 0x08 ∧ b ≠ 0x7F

instance (bytes : List UInt8) : Decidable (Plain bytes) :=
  inferInstanceAs (Decidable (∀ b ∈ bytes, b ≠ 0x08 ∧ b ≠ 0x7F))

/-- The terminal codes before and after a text in a style. -/
structure Codes where
  start : Style → String
  stop : Style → String

def Codes.around (codes : Codes) (style : Style) (text : String) : String :=
  codes.start style ++ text ++ codes.stop style

/-- A text in a style is the text between the codes of the style. The clusters of a text are the
text in parts; a line feed is a cluster of its own unless it follows a carriage return, and it is
sent after one. The bytes that erase nothing are sent as they are. -/
structure Line.Lawful (l : Line) (codes : Codes) : Prop where
  paint : ∀ style text, String.join (l.paint style text) = codes.around style (String.join text)
  codes_plain : ∀ style, Plain (utf8 (codes.start style)) ∧ Plain (utf8 (codes.stop style))
  partition : ∀ text, (l.clusters text).flatten = text
  lineFeed_alone : ∀ {text before a b after},
    l.clusters text = before ++ (a ++ '\n' :: b) :: after →
      (before.flatten ++ a).getLast? ≠ some '\r' → a = [] ∧ b = []
  lineFeed : l.send 0x0A = [0x0D, 0x0A]
  other : ∀ {b}, b ≠ 0x0A → b ≠ 0x08 → b ≠ 0x7F → l.send b = [b]

/-- A line feed after a carriage return is not alone in its cluster. -/
def Line.JoinsLineEnds (l : Line) : Prop :=
  ∀ {text before after}, l.clusters text = before ++ ['\n'] :: after →
    before.flatten.getLast? ≠ some '\r'

/-! ### What is sent for a text -/

def withoutReturns (bytes : List UInt8) : List UInt8 := bytes.filter (· ≠ 0x0D)

/-- Each line feed follows a carriage return. -/
def LinesEnded (sent : List UInt8) : Prop :=
  ∀ before after, sent = before ++ 0x0A :: after → before.getLast? = some 0x0D

/-- The bytes sent are those of the text but for carriage returns, with all its lines ended. -/
structure Conveys (sent : List UInt8) (text : String) : Prop where
  text : withoutReturns sent = withoutReturns (utf8 text)
  lineEnds : LinesEnded sent

theorem plain_append {first second : List UInt8} :
    Plain (first ++ second) ↔ Plain first ∧ Plain second := List.forall_mem_append

theorem plain_flatMap {α : Type} {xs : List α} {f : α → List UInt8} :
    Plain (xs.flatMap f) ↔ ∀ x ∈ xs, Plain (f x) := by
  simp only [Plain, List.mem_flatMap]
  exact ⟨fun h x hx b hb => h b ⟨x, hx, hb⟩, fun h b ⟨x, hx, hb⟩ => h x hx b hb⟩

/-- Parts that agree but for carriage returns make wholes that agree. -/
theorem withoutReturns_flatMap {α : Type} {xs : List α} {f g : α → List UInt8}
    (h : ∀ x ∈ xs, withoutReturns (f x) = withoutReturns (g x)) :
    withoutReturns (xs.flatMap f) = withoutReturns (xs.flatMap g) := by
  simp only [withoutReturns, List.filter_flatMap] at h ⊢
  exact List.flatMap_congr h

theorem LinesEnded.append {first second : List UInt8} (h : LinesEnded first)
    (h' : LinesEnded second) : LinesEnded (first ++ second) := by
  intro before after hsent
  rcases List.append_eq_append_iff.mp hsent with ⟨rest, rfl, hsecond⟩ | ⟨rest, hfirst, hrest⟩
  · rw [List.getLast?_append, h' rest after hsecond]
    rfl
  · cases rest with
    | nil => exact absurd (h' [] after hrest.symm) (by simp)
    | cons b rest =>
      obtain ⟨rfl, -⟩ := List.cons.inj hrest
      exact h before rest hfirst

theorem linesEnded_flatMap {α : Type} {xs : List α} {f : α → List UInt8}
    (h : ∀ x ∈ xs, LinesEnded (f x)) : LinesEnded (xs.flatMap f) := by
  induction xs with
  | nil =>
    intro before after hsent
    exact absurd hsent (by simp)
  | cons x rest ih =>
    obtain ⟨hx, hrest⟩ := List.forall_mem_cons.mp h
    exact hx.append (ih hrest)

/-- What is conveyed part by part is conveyed as a whole. -/
theorem conveys_join {α : Type} {xs : List α} {f : α → List UInt8} {text : α → String}
    (h : ∀ x ∈ xs, Conveys (f x) (text x)) :
    Conveys (xs.flatMap f) (String.join (xs.map text)) where
  text := by
    rw [utf8_join, List.flatMap_map]
    exact withoutReturns_flatMap fun x hx => (h x hx).text
  lineEnds := linesEnded_flatMap fun x hx => (h x hx).lineEnds

/-! ### One byte, one cluster, one piece -/

theorem plain_expandCluster {cluster : List Char} (h : Plain (utf8 (String.ofList cluster))) :
    Plain (utf8 (String.ofList (expandCluster cluster))) := by
  unfold expandCluster
  split_ifs
  · decide +kernel
  · exact h

theorem withoutReturns_expandCluster (cluster : List Char) :
    withoutReturns (utf8 (String.ofList (expandCluster cluster))) =
      withoutReturns (utf8 (String.ofList cluster)) := by
  unfold expandCluster
  split_ifs with hcluster
  · rw [hcluster]
    decide +kernel
  · rfl

namespace Line

variable {l : Line} {codes : Codes}

theorem Lawful.withoutReturns_send (h : l.Lawful codes) {b : UInt8} (hb : b ≠ 0x08 ∧ b ≠ 0x7F) :
    withoutReturns (l.send b) = withoutReturns [b] := by
  by_cases hfeed : b = 0x0A
  · rw [hfeed, h.lineFeed]
    rfl
  · rw [h.other hfeed hb.1 hb.2]

theorem Lawful.linesEnded_send (h : l.Lawful codes) {b : UInt8} (hb : b ≠ 0x08 ∧ b ≠ 0x7F) :
    LinesEnded (l.send b) := by
  intro before after hsent
  by_cases hfeed : b = 0x0A
  · rw [hfeed, h.lineFeed] at hsent
    rcases before with _ | ⟨first, _ | ⟨second, rest⟩⟩
    · simp at hsent
    · rw [List.cons_append, List.cons.injEq] at hsent
      rw [← hsent.1]
      rfl
    · simp at hsent
  · rw [h.other hfeed hb.1 hb.2] at hsent
    have hmem : 0x0A ∈ [b] := hsent ▸ List.mem_append_right before List.mem_cons_self
    exact absurd (List.mem_singleton.mp hmem).symm hfeed

theorem Lawful.withoutReturns_flatMap_send (h : l.Lawful codes) {bytes : List UInt8}
    (hplain : Plain bytes) : withoutReturns (bytes.flatMap l.send) = withoutReturns bytes := by
  conv_rhs => rw [← List.flatMap_singleton' bytes]
  exact withoutReturns_flatMap fun b hb => h.withoutReturns_send (hplain b hb)

theorem Lawful.conveys_cluster (h : l.Lawful codes) {cluster : List Char}
    (hplain : Plain (utf8 (String.ofList cluster))) :
    Conveys (l.clusterBytes cluster) (String.ofList cluster) where
  text := by
    rw [clusterBytes, h.withoutReturns_flatMap_send (plain_expandCluster hplain),
      withoutReturns_expandCluster]
  lineEnds := linesEnded_flatMap fun b hb => h.linesEnded_send (plain_expandCluster hplain b hb)

theorem Lawful.join_clusters (h : l.Lawful codes) (piece : String) :
    String.join ((l.clusters piece.toList).map String.ofList) = piece := by
  rw [← String.toList_inj, String.toList_join, List.flatMap_map]
  simp only [String.toList_ofList, List.flatMap_id', h.partition]

theorem Lawful.plain_cluster (h : l.Lawful codes) {piece : String} (hplain : Plain (utf8 piece)) :
    ∀ cluster ∈ l.clusters piece.toList, Plain (utf8 (String.ofList cluster)) := by
  rw [← h.join_clusters piece, utf8_join, plain_flatMap, List.forall_mem_map] at hplain
  exact hplain

theorem Lawful.conveys_piece (h : l.Lawful codes) {piece : String} (hplain : Plain (utf8 piece)) :
    Conveys (l.pieceBytes piece) piece := by
  have hclusters := conveys_join fun cluster hmem =>
    h.conveys_cluster (h.plain_cluster hplain cluster hmem)
  rwa [h.join_clusters] at hclusters

theorem Lawful.conveys_pieces (h : l.Lawful codes) {text : List String}
    (hplain : Plain (utf8 (String.join text))) :
    Conveys (text.flatMap l.pieceBytes) (String.join text) := by
  rw [utf8_join, plain_flatMap] at hplain
  conv => rhs; rw [← List.map_id text]
  exact conveys_join fun piece hmem => h.conveys_piece (hplain piece hmem)

end Line

/-! ### Records -/

namespace Codes

/-- The text of a level: its name in five places and a blank, in the colour of the level. -/
def levelText (codes : Codes) : Level → String
  | .error => codes.around .brightRed "ERROR "
  | .warn => codes.around .brightYellow "WARN  "
  | .info => codes.around .brightBlue "INFO  "
  | .debug => codes.around .brightCyan "DEBUG "
  | .trace => codes.around .brightMagenta "TRACE "

/-- The text of a record: the level in its colour, the dimmed target in brackets, the message, and a
line feed. -/
def printed (codes : Codes) (r : Record) : String :=
  codes.levelText r.level ++ codes.around .dimmed ("[" ++ r.target ++ "] ") ++
    String.join r.pieces ++ "\n"

/-- A text in a colour of the logger. -/
def shown (codes : Codes) (colour : Colour) (text : String) : String :=
  match colour.style? with
  | none => text
  | some style => codes.around style text

theorem shown_level (codes : Codes) (level : Level) :
    codes.shown (levelColour level) (String.join [paddedLabel level, " "]) =
      codes.levelText level := by
  cases level <;> rfl

theorem join_parts (codes : Codes) (r : Record) :
    String.join ((parts r).map fun part => codes.shown part.1 (String.join part.2)) =
      codes.printed r := by
  simp only [parts, List.map_cons, List.map_nil, shown_level]
  simp only [printed, shown, Colour.style?, String.join_cons, String.join_nil,
    String.append_empty, String.append_assoc]

end Codes

/-- Nothing but the target and the message of a record can erase. -/
theorem plain_parts {r : Record} (h : Plain (utf8 (r.target ++ String.join r.pieces))) :
    ∀ part ∈ parts r, Plain (utf8 (String.join part.2)) := by
  rw [utf8_append, plain_append] at h
  obtain ⟨htarget, hmessage⟩ := h
  have hlevel : Plain (utf8 (String.join [paddedLabel r.level, " "])) := by
    cases r.level <;> decide +kernel
  have hbrackets : Plain (utf8 "[") ∧ Plain (utf8 "] ") := by decide +kernel
  have htarget : Plain (utf8 (String.join ["[", r.target, "] "])) := by
    simp only [String.join_cons, String.join_nil, String.append_empty, utf8_append, plain_append]
    exact ⟨hbrackets.1, htarget, hbrackets.2⟩
  have hfeed : Plain (utf8 (String.join ["\n"])) := by decide +kernel
  simp only [parts, List.forall_mem_cons]
  exact ⟨hlevel, htarget, hmessage, hfeed, List.forall_mem_nil _⟩

namespace Line

variable {l : Line} {codes : Codes}

theorem Lawful.plain_around (h : l.Lawful codes) (style : Style) {text : String}
    (hplain : Plain (utf8 text)) : Plain (utf8 (codes.around style text)) := by
  obtain ⟨hstart, hstop⟩ := h.codes_plain style
  simp only [Codes.around, utf8_append, plain_append]
  exact ⟨⟨hstart, hplain⟩, hstop⟩

theorem Lawful.conveys_text (h : l.Lawful codes) (colour : Colour) {text : List String}
    (hplain : Plain (utf8 (String.join text))) :
    Conveys (l.textBytes colour text) (codes.shown colour (String.join text)) := by
  unfold textBytes coloured Codes.shown
  cases colour.style? with
  | none => exact h.conveys_pieces hplain
  | some style =>
    have haround := h.plain_around style hplain
    simp only
    rw [← h.paint] at haround ⊢
    exact h.conveys_pieces haround

theorem Lawful.conveys_record (h : l.Lawful codes) {r : Record}
    (hplain : Plain (utf8 (r.target ++ String.join r.pieces))) :
    Conveys (l.recordBytes r) (codes.printed r) := by
  rw [← codes.join_parts]
  exact conveys_join fun part hmem => h.conveys_text part.1 (plain_parts hplain part hmem)

end Line

/-! ### Line ends after a character -/

/-- The text with a carriage return before each line feed that follows none, after the character
before the text. -/
def withReturns : Option Char → List Char → List Char
  | _, [] => []
  | prev, c :: rest =>
    (if c = '\n' ∧ prev ≠ some '\r' then ['\r', '\n'] else [c]) ++ withReturns (some c) rest

theorem withReturns_lineFeed {prev : Option Char} (h : prev ≠ some '\r') (rest : List Char) :
    withReturns prev ('\n' :: rest) = '\r' :: '\n' :: withReturns (some '\n') rest := by
  rw [withReturns, if_pos ⟨rfl, h⟩]
  rfl

theorem withReturns_kept {prev : Option Char} {c : Char} (h : c = '\n' → prev = some '\r')
    (rest : List Char) : withReturns prev (c :: rest) = c :: withReturns (some c) rest := by
  rw [withReturns, if_neg fun ⟨hfeed, hprev⟩ => hprev (h hfeed), List.singleton_append]

theorem getLast?_cons_or (c : Char) (rest : List Char) (prev : Option Char) :
    (c :: rest).getLast?.or prev = rest.getLast?.or (some c) := by
  rw [List.getLast?_cons]
  cases rest.getLast? <;> rfl

theorem withReturns_append (prev : Option Char) (first second : List Char) :
    withReturns prev (first ++ second) =
      withReturns prev first ++ withReturns (first.getLast?.or prev) second := by
  induction first generalizing prev with
  | nil => rfl
  | cons c rest ih =>
    rw [List.cons_append, withReturns, ih, withReturns, List.append_assoc, getLast?_cons_or]

/-- A text whose line feeds all follow carriage returns stays as it is. -/
theorem withReturns_of_joined {prev : Option Char} {text : List Char}
    (h : ∀ before after, text = before ++ '\n' :: after → before.getLast?.or prev = some '\r') :
    withReturns prev text = text := by
  induction text generalizing prev with
  | nil => rfl
  | cons c rest ih =>
    have hc : c = '\n' → prev = some '\r' := by
      rintro rfl
      exact h [] rest rfl
    rw [withReturns_kept hc, ih]
    intro before after hrest
    rw [← getLast?_cons_or c before prev]
    exact h (c :: before) after (by rw [hrest, List.cons_append])

namespace Line

variable {l : Line} {codes : Codes}

/-- A cluster is expanded as its text is after what is before it. -/
theorem Lawful.expandCluster_eq (h : l.Lawful codes) (hjoins : l.JoinsLineEnds)
    {text cluster : List Char} {before after : List (List Char)}
    (htext : l.clusters text = before ++ cluster :: after) :
    expandCluster cluster = withReturns before.flatten.getLast? cluster := by
  by_cases hcluster : cluster = ['\n']
  · subst hcluster
    rw [withReturns_lineFeed (hjoins htext)]
    rfl
  · rw [expandCluster, if_neg hcluster, withReturns_of_joined]
    intro a b hfeed
    by_contra hprev
    rw [← List.getLast?_append] at hprev
    obtain ⟨rfl, rfl⟩ := h.lineFeed_alone (by rw [htext, hfeed]) hprev
    exact hcluster hfeed

theorem Lawful.flatMap_expandCluster_after (h : l.Lawful codes) (hjoins : l.JoinsLineEnds)
    {text : List Char} {before after : List (List Char)}
    (htext : l.clusters text = before ++ after) :
    after.flatMap expandCluster = withReturns before.flatten.getLast? after.flatten := by
  induction after generalizing before with
  | nil => rfl
  | cons cluster after ih =>
    have hnext : l.clusters text = (before ++ [cluster]) ++ after := by
      rw [htext, List.append_assoc, List.singleton_append]
    rw [List.flatMap_cons, h.expandCluster_eq hjoins htext, ih hnext, List.flatten_cons,
      withReturns_append, List.flatten_append, List.flatten_singleton, List.getLast?_append]

/-- Cluster by cluster the text is expanded as a whole. -/
theorem Lawful.flatMap_expandCluster (h : l.Lawful codes) (hjoins : l.JoinsLineEnds)
    (text : List Char) : (l.clusters text).flatMap expandCluster = withReturns none text := by
  have hwhole : l.clusters text = [] ++ l.clusters text := rfl
  rw [h.flatMap_expandCluster_after hjoins hwhole, h.partition]
  rfl

/-- A piece is handed to the UART with a carriage return before each line feed that follows none. -/
theorem Lawful.pieceBytes_eq (h : l.Lawful codes) (hjoins : l.JoinsLineEnds) (piece : String) :
    l.pieceBytes piece =
      (utf8 (String.ofList (withReturns none piece.toList))).flatMap l.send := by
  have hcluster : l.clusterBytes = fun cluster =>
      (expandCluster cluster).flatMap fun c => (String.utf8EncodeChar c).flatMap l.send := by
    funext cluster
    rw [← List.flatMap_assoc, ← utf8_ofList]
    rfl
  rw [pieceBytes, hcluster, ← h.flatMap_expandCluster hjoins, utf8_ofList]
  simp only [List.flatMap_assoc]

end Line

/-! ### The line that runs -/

def Codes.standard : Codes := ⟨Style.start, Style.stop⟩

theorem flatten_lineClusters (text : List Char) : (lineClusters text).flatten = text := by
  fun_induction lineClusters text with
  | case1 => rfl
  | case2 rest ih =>
    rw [List.flatten_cons, ih]
    rfl
  | case3 c rest hpair ih => rw [List.flatten_cons, ih, List.singleton_append]

theorem mem_lineClusters {text cluster : List Char} (h : cluster ∈ lineClusters text) :
    cluster = ['\r', '\n'] ∨ ∃ c, cluster = [c] := by
  fun_induction lineClusters text with
  | case1 => contradiction
  | case2 rest ih =>
    rcases List.mem_cons.mp h with rfl | hrest
    · exact .inl rfl
    · exact ih hrest
  | case3 c rest hpair ih =>
    rcases List.mem_cons.mp h with rfl | hrest
    · exact .inr ⟨c, rfl⟩
    · exact ih hrest

theorem lawful_standard : Line.standard.Lawful .standard where
  paint style text := by
    simp only [Line.standard, Codes.standard, Codes.around, String.join_cons, String.join_append,
      String.join_nil, String.append_empty, String.append_assoc]
  codes_plain style := by cases style <;> decide +kernel
  partition := flatten_lineClusters
  lineFeed_alone := by
    intro text before a b after htext hreturn
    have hmem : a ++ '\n' :: b ∈ lineClusters text := by
      rw [show lineClusters text = _ from htext]
      exact List.mem_append_right _ List.mem_cons_self
    rcases mem_lineClusters hmem with hpair | ⟨c, hc⟩
    · -- in a pair the line feed follows the carriage return
      cases a with
      | nil => exact absurd hpair (by simp)
      | cons c rest =>
        obtain ⟨rfl, hrest⟩ := List.cons.inj hpair
        obtain ⟨rfl, -⟩ | ⟨-, hfeed⟩ := List.append_eq_singleton_iff.mp hrest
        · exact absurd List.getLast?_concat hreturn
        · contradiction
    · obtain ⟨rfl, hfeed⟩ | ⟨-, hfeed⟩ := List.append_eq_singleton_iff.mp hc
      · exact ⟨rfl, (List.cons.inj hfeed).2⟩
      · contradiction
  lineFeed := rfl
  other := by
    intro b hfeed h8 h7F
    exact (if_neg (not_or.mpr ⟨h8, h7F⟩)).trans (if_neg hfeed)

theorem joinsLineEnds_standard : Line.standard.JoinsLineEnds := by
  intro text before after htext
  replace htext : lineClusters text = before ++ ['\n'] :: after := htext
  fun_induction lineClusters text generalizing before with
  | case1 => exact absurd htext (by simp)
  | case2 rest ih =>
    cases before with
    | nil => exact absurd htext (by simp)
    | cons pair before =>
      obtain ⟨rfl, hrest⟩ := List.cons.inj htext
      rw [List.flatten_cons, List.getLast?_append]
      have hbefore := ih hrest
      cases hlast : before.flatten.getLast? with
      | none => simp
      | some d => rwa [hlast] at hbefore
  | case3 c rest hpair ih =>
    cases before with
    | nil => simp
    | cons single before =>
      obtain ⟨rfl, hrest⟩ := List.cons.inj htext
      replace hrest : lineClusters rest = before ++ ['\n'] :: after := hrest
      rw [List.flatten_cons, List.getLast?_append]
      have hbefore := ih hrest
      cases hlast : before.flatten.getLast? with
      | none =>
        -- the line feed follows the character, which is thus no carriage return
        have htext := flatten_lineClusters rest
        rw [hrest, List.flatten_append, List.getLast?_eq_none_iff.mp hlast] at htext
        intro hreturn
        exact hpair _ (by simpa using hreturn) htext.symm
      | some d => rwa [hlast] at hbefore

/-- A record whose target and message hold nothing that erases is conveyed, whatever the pieces of
its message. If a line feed after a carriage return is never alone, each piece is sent with a
carriage return before the line feeds that follow none. -/
theorem log_conveyed {l : Line} {codes : Codes} (h : l.Lawful codes) {r : Record}
    (hplain : Plain (utf8 (r.target ++ String.join r.pieces))) :
    Conveys (l.recordBytes r) (codes.printed r) ∧
      (l.JoinsLineEnds → ∀ piece, l.pieceBytes piece =
        (utf8 (String.ofList (withReturns none piece.toList))).flatMap l.send) :=
  ⟨h.conveys_record hplain, h.pieceBytes_eq⟩

/-- A line end that is split between two pieces is conveyed, on the line that runs. -/
theorem split_line_end_conveyed :
    let r : Record := ⟨.debug, "kernel", ["mount\r", "\nok"]⟩
    Line.standard.Lawful .standard ∧ Line.standard.JoinsLineEnds ∧
      Plain (utf8 (r.target ++ String.join r.pieces)) ∧
      Conveys (Line.standard.recordBytes r) (Codes.standard.printed r) ∧
      Line.standard.pieceBytes "\nok" =
        (utf8 (String.ofList (withReturns none "\nok".toList))).flatMap uartBytes := by
  intro r
  have hplain : Plain (utf8 (r.target ++ String.join r.pieces)) := by decide +kernel
  obtain ⟨hconveyed, hpieces⟩ := log_conveyed lawful_standard hplain
  exact ⟨lawful_standard, joinsLineEnds_standard, hplain, hconveyed,
    hpieces joinsLineEnds_standard "\nok"⟩

end Serial

/-! ### A run of the log -/

namespace Kernel

open Serial

/-- On the serial line a record is sent after what is there, if its level passes. -/
theorem serial_log {k : Kernel} (h : k.sink = .serial) (r : Record) :
    (k.log r).sink = .serial ∧ (k.log r).limit = k.limit ∧
      (k.log r).serial.toList =
        k.serial.toList ++ if r.level.passes k.limit then Line.standard.recordBytes r else [] := by
  unfold log
  split_ifs
  · simp only [h, Array.toList_appendList, and_self]
  · simp only [h, List.append_nil, and_self]

/-- Of a run of records those that pass are sent, each once and in order. -/
theorem serial_logAll {k : Kernel} (h : k.sink = .serial) (records : List Record) :
    (k.logAll records).serial.toList = k.serial.toList ++
      (records.filter fun r => r.level.passes k.limit).flatMap Line.standard.recordBytes := by
  induction records generalizing k with
  | nil => exact (List.append_nil _).symm
  | cons r rest ih =>
    obtain ⟨hsink, hlimit, hserial⟩ := serial_log h r
    rw [show k.logAll (r :: rest) = (k.log r).logAll rest from rfl, ih hsink, hserial, hlimit,
      List.append_assoc, List.filter_cons]
    split_ifs <;> rfl

/-- A run of records is conveyed as the texts of those that pass. -/
theorem conveys_logAll {k : Kernel} (h : k.sink = .serial) {records : List Record}
    (hplain : ∀ r ∈ records, Plain (utf8 (r.target ++ String.join r.pieces))) :
    ∃ sent, (k.logAll records).serial.toList = k.serial.toList ++ sent ∧
      Conveys sent
        (String.join ((records.filter fun r => r.level.passes k.limit).map
          Codes.standard.printed)) :=
  ⟨_, serial_logAll h records, conveys_join fun r hr =>
    lawful_standard.conveys_record (hplain r (List.mem_filter.mp hr).1)⟩

end Kernel

end ClusterFs
