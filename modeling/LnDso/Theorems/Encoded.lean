import LnDso.Lib.Tokens
import LnDso.Theorems.Decompression

/-!
# Encoded streams

The reader undoes any list of tokens: it does not matter how they were chosen,
where in flash they are, or what is after them.
-/

namespace LnDso

open Lib

variable {toks : List Lzss.Tok} {flash : Mem} {data i : Nat}

theorem from_read {bs : List Byte} (hflash : flash.read data bs.length = bs) :
    ∀ q < bs.length, bs[q]? = some (flash.from_ data q) := by
  intro q hq
  rw [← hflash]
  simp [Mem.read, Mem.from_, hq]

theorem expand_tokens (hfit : ∀ t ∈ toks, t.Fits 8 4)
    (hflash : flash.read data (Lzss.encode 8 4 toks).length = Lzss.encode 8 4 toks)
    (hi : i < (Lzss.meaning toks).length) :
    (Lzss.meaning toks)[i]? = some (Lzss.expand 8 4 (flash.from_ data) i) :=
  Lzss.expand_encode hfit (from_read hflash) hi

/-- Tokens that fit their fields are read back byte by byte. -/
theorem hands_out (toks : List Lzss.Tok) (hfit : ∀ t ∈ toks, t.Fits 8 4) (flash : Mem) (data : Nat)
    (hflash : flash.read data (Lzss.encode 8 4 toks).length = Lzss.encode 8 4 toks) (i : Nat)
    (hi : i < (Lzss.meaning toks).length) :
    ∃ hs hs', IliHS.after flash data i = some hs ∧
      hs.next flash = some ((Lzss.meaning toks)[i], hs') := by
  obtain ⟨hs, hafter, hread⟩ := IliHS.after_reads flash data i
  obtain ⟨hs', hnext, -⟩ := IliHS.next_reads hread
  have hbyte := expand_tokens hfit hflash hi
  rw [List.getElem?_eq_getElem hi] at hbyte
  rw [Option.some.inj hbyte]
  exact ⟨hs, hs', hafter, hnext⟩

/-- Five bytes out of two tokens: the second repeats the first. -/
theorem hands_out_run : ∃ hs hs', IliHS.after (Mem.write (fun _ => 0xff) 7
      (Lzss.encode 8 4 [.literal 0xa5, .back 1 4])) 7 4 = some hs ∧
    hs.next (Mem.write (fun _ => 0xff) 7 (Lzss.encode 8 4 [.literal 0xa5, .back 1 4])) =
      some (0xa5, hs') :=
  hands_out [.literal 0xa5, .back 1 4] (by simp [Lzss.Tok.Fits])
    (Mem.write (fun _ => 0xff) 7 (Lzss.encode 8 4 [.literal 0xa5, .back 1 4])) 7
    (by decide +kernel) 4 (by decide)

end LnDso
