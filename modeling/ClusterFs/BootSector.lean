import ClusterFs.Geometry

/-! The signature in sector 0. Any other content means that the device carries no volume. -/
namespace ClusterFs.BootSector

def text : String :=
  "Course          Designed by     Lab Sister ITB  Made with <3    -----------2024\n"

/-- The text, zeros, and the letters `Ok` in the last two bytes. -/
def signature : Sector :=
  let bytes := text.toUTF8.data
  Vector.ofFn fun i : Fin 512 =>
    if i.1 = 510 then 79 else if i.1 = 511 then 107 else bytes.getD i 0

end ClusterFs.BootSector
