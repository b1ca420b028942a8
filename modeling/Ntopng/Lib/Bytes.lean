/-
  Ntopng.Lib.Bytes — network byte order, as a little-endian host reads it.
-/

import Mathlib

namespace Ntopng.Lib.Bytes

def ntohs (v : UInt16) : UInt16 := v <<< 8 ||| v >>> 8

def ntohl (v : UInt32) : UInt32 :=
  (v &&& 0xFF) <<< 24 ||| (v &&& 0xFF00) <<< 8 ||| (v &&& 0xFF0000) >>> 8 ||| (v &&& 0xFF000000) >>> 24

theorem ntohs_ntohs (v : UInt16) : ntohs (ntohs v) = v := by
  apply UInt16.toBitVec_inj.mp
  simp only [ntohs, UInt16.toBitVec_or, UInt16.toBitVec_shiftLeft, UInt16.toBitVec_shiftRight]
  apply BitVec.eq_of_getLsbD_eq
  intro i hi
  have hout : v.toBitVec.getLsbD (8 + (8 + i)) = false := BitVec.getLsbD_of_ge _ _ (by omega)
  by_cases h : i < 8
  · have h' : 8 + i < 16 := by omega
    simp [h, hi, hout, h']
  · have h' : ¬ 8 + i < 16 := by omega
    simp [h, hi, hout, h', show 8 + (i - 8) = i by omega, show i - 8 < 8 by omega]

@[simp] theorem ntohs_inj {v w : UInt16} : ntohs v = ntohs w ↔ v = w :=
  ⟨fun h => by rw [← ntohs_ntohs v, h, ntohs_ntohs], fun h => h ▸ rfl⟩

theorem ntohl_ntohl (v : UInt32) : ntohl (ntohl v) = v := by
  apply UInt32.toBitVec_inj.mp
  simp only [ntohl, UInt32.toBitVec_or, UInt32.toBitVec_and, UInt32.toBitVec_shiftLeft, UInt32.toBitVec_shiftRight]
  apply BitVec.eq_of_getLsbD_eq
  intro i hi
  interval_cases i <;> simp

@[simp] theorem ntohl_inj {v w : UInt32} : ntohl v = ntohl w ↔ v = w :=
  ⟨fun h => by rw [← ntohl_ntohl v, h, ntohl_ntohl], fun h => h ▸ rfl⟩

end Ntopng.Lib.Bytes
