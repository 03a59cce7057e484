import Ferrosys.Compress.Lzo.Total
import Ferrosys.Compress.Lzvn.Inversion
import Ferrosys.Compress.Lzfse.Independent
import Ferrosys.Compress.Lzbitmap.Total

/-! The decoders under the one call that picks between them, and what holds of every one of them. -/

namespace Ferrosys.Compress

/-- Undo one stream into `out`: how many bytes it produced, and the output. -/
def decompress : Algorithm → Bytes → Bytes → Decoded (Nat × Bytes)
  | .lzo => Lzo.decompress
  | .lzvn => Lzvn.decompress
  | .lzfse => Lzfse.decompress
  | .lzbitmap => Lzbitmap.decompress

/-- Every decoder ends without a panic on every stream and every buffer, and what it makes of one
buffer it makes of every other with room for it.
-/
theorem decompress_total_independent (algorithm : Algorithm)
    : Total (decompress algorithm) ∧ Independent (decompress algorithm) := by
  cases algorithm with
  | lzo => exact ⟨Lzo.decompress_total, Lzo.decompress_independent⟩
  | lzvn => exact ⟨Lzvn.decompress_total, Lzvn.decompress_independent⟩
  | lzfse => exact ⟨Lzfse.decompress_total, Lzfse.decompress_independent⟩
  | lzbitmap => exact ⟨Lzbitmap.decompress_total, Lzbitmap.decompress_independent⟩

/-- A raw block of three bytes is decoded into a buffer that holds them exactly as into a longer
one.
-/
theorem decompress_total_independent_raw
    : decompress .lzfse [0x62, 0x76, 0x78, 0x2D, 3, 0, 0, 0, 97, 98, 99, 0x62, 0x76, 0x78, 0x24]
      [1, 2, 3] = .ok (3, [97, 98, 99]) :=
  ((decompress_total_independent .lzfse).2
    [0x62, 0x76, 0x78, 0x2D, 3, 0, 0, 0, 97, 98, 99, 0x62, 0x76, 0x78, 0x24] [9, 9, 9, 9, 9] 3
    [97, 98, 99, 9, 9] (by decide) (by decide) (by decide +kernel)).2.2 [1, 2, 3]
    (by decide) (by decide)

end Ferrosys.Compress
