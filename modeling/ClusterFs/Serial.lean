import ClusterFs.Log

/-!
Log records on the serial line. The logger prints a record in colours and hands the UART its text
piece by piece, with a carriage return before each line feed that stands alone. How a text is
coloured, which characters of a piece belong together, and what the UART sends for a byte are left
to other libraries, and so they are the parts of a `Line`.
-/
namespace ClusterFs.Serial

/-- The styles that the logger has texts printed in. -/
inductive Style where
  | dimmed
  | brightRed
  | brightYellow
  | brightBlue
  | brightCyan
  | brightMagenta
  deriving DecidableEq

/-- What other libraries do on the way of a text: they print it in a style, again in pieces; they
take a piece apart into clusters of characters; and they send bytes for a byte given to the UART. -/
structure Line where
  paint : Style → List String → List String
  clusters : List Char → List (List Char)
  send : UInt8 → List UInt8

/-- The colours of the logger. -/
inductive Colour where
  | plain
  | gray
  | brightRed
  | brightYellow
  | brightBlue
  | brightCyan
  | brightMagenta
  deriving DecidableEq

def Colour.style? : Colour → Option Style
  | .plain => none
  | .gray => some .dimmed
  | .brightRed => some .brightRed
  | .brightYellow => some .brightYellow
  | .brightBlue => some .brightBlue
  | .brightCyan => some .brightCyan
  | .brightMagenta => some .brightMagenta

def levelColour : Level → Colour
  | .error => .brightRed
  | .warn => .brightYellow
  | .info => .brightBlue
  | .debug => .brightCyan
  | .trace => .brightMagenta

/-- The level's name, filled up to five characters. -/
def paddedLabel (level : Level) : String :=
  level.label ++ String.ofList (List.replicate (5 - level.label.length) ' ')

/-- The parts in which a record is printed, each in a colour and in pieces: the level, the target,
the message and a line feed. -/
def parts (r : Record) : List (Colour × List String) :=
  [(levelColour r.level, [paddedLabel r.level, " "]), (.gray, ["[", r.target, "] "]),
    (.plain, r.pieces), (.plain, ["\n"])]

/-- A line feed alone gets a carriage return, and every other cluster is left as it is. -/
def expandCluster (cluster : List Char) : List Char :=
  if cluster = ['\n'] then ['\r', '\n'] else cluster

namespace Line

/-- The pieces of a text in a colour. -/
def coloured (l : Line) (colour : Colour) (text : List String) : List String :=
  match colour.style? with
  | none => text
  | some style => l.paint style text

def clusterBytes (l : Line) (cluster : List Char) : List UInt8 :=
  (String.ofList (expandCluster cluster)).toUTF8.data.toList.flatMap l.send

def pieceBytes (l : Line) (piece : String) : List UInt8 :=
  (l.clusters piece.toList).flatMap l.clusterBytes

/-- The bytes sent for a text in a colour. -/
def textBytes (l : Line) (colour : Colour) (text : List String) : List UInt8 :=
  (l.coloured colour text).flatMap l.pieceBytes

def recordBytes (l : Line) (r : Record) : List UInt8 :=
  (parts r).flatMap fun part => l.textBytes part.1 part.2

end Line

/-! ### The line that runs -/

/-- The terminal codes that start and stop a style. -/
def Style.start : Style → String
  | .dimmed => "\x1b[2m"
  | .brightRed => "\x1b[91m"
  | .brightYellow => "\x1b[93m"
  | .brightBlue => "\x1b[94m"
  | .brightCyan => "\x1b[96m"
  | .brightMagenta => "\x1b[95m"

def Style.stop : Style → String
  | .dimmed => "\x1b[0m"
  | _ => "\x1b[39m"

/-- Carriage return and line feed together, and every other character alone. -/
def lineClusters : List Char → List (List Char)
  | [] => []
  | '\r' :: '\n' :: rest => ['\r', '\n'] :: lineClusters rest
  | c :: rest => [c] :: lineClusters rest

/-- The UART erases by backspace, blank, backspace, and sends a carriage return before a line
feed. -/
def uartBytes (b : UInt8) : List UInt8 :=
  if b = 0x08 ∨ b = 0x7F then [0x08, 0x20, 0x08]
  else if b = 0x0A then [0x0D, 0x0A]
  else [b]

/-- A line whose parts do what the libraries say of themselves. -/
def Line.standard : Line where
  paint style text := style.start :: text ++ [style.stop]
  clusters := lineClusters
  send := uartBytes

end ClusterFs.Serial
