import SharedLedger.Text.Base64Url
import Mathlib.Data.List.Basic

/-!
# Base64 is read back

What is written in the URL-safe alphabet is read back (`decode?_encode`), for
all three lengths a last group of octets can have. The alphabet has no point
(`notMem_encode`), so texts written in it can be put together with points
between them.
-/

namespace SharedLedger

namespace Base64Url

theorem bits?_symbol : ∀ n < 64, bits? (symbol n) = some n := by decide

theorem symbol_ne : ∀ n < 64, '.' ≠ symbol n := by decide

private theorem octet_eq {a : UInt8} {n : Nat} (h : n = a.toNat) : UInt8.ofNat n = a := by
  rw [h, UInt8.ofNat_toNat]

/-- **What was encoded is decoded.** -/
theorem decode?_encode (bs : List UInt8) : decode? (encode bs) = some bs := by
  -- group by group: three octets, or what is left of them at the end
  induction bs using encode.induct with
  | case1 => rfl
  | case2 a =>
    have ha := a.toNat_lt
    have hlast : a.toNat % 4 * 16 % 16 = 0 := by omega
    have hoctet : UInt8.ofNat (a.toNat / 4 * 4 + a.toNat % 4 * 16 / 16) = a := octet_eq (by omega)
    simp only [encode, decode?, bits?_symbol _ (show a.toNat / 4 < 64 by omega),
      bits?_symbol _ (show a.toNat % 4 * 16 < 64 by omega), Option.bind_eq_bind, Option.bind_some,
      hlast, hoctet, if_true]
  | case3 a b =>
    have ha := a.toNat_lt
    have hb := b.toNat_lt
    have hlast : b.toNat % 16 * 4 % 4 = 0 := by omega
    have hfirst : UInt8.ofNat (a.toNat / 4 * 4 + (a.toNat % 4 * 16 + b.toNat / 16) / 16) = a :=
      octet_eq (by omega)
    have hsecond : UInt8.ofNat ((a.toNat % 4 * 16 + b.toNat / 16) % 16 * 16 +
        b.toNat % 16 * 4 / 4) = b := octet_eq (by omega)
    simp only [encode, decode?, bits?_symbol _ (show a.toNat / 4 < 64 by omega),
      bits?_symbol _ (show a.toNat % 4 * 16 + b.toNat / 16 < 64 by omega),
      bits?_symbol _ (show b.toNat % 16 * 4 < 64 by omega), Option.bind_eq_bind, Option.bind_some,
      hlast, hfirst, hsecond, if_true]
  | case4 a b c rest ih =>
    have ha := a.toNat_lt
    have hb := b.toNat_lt
    have hc := c.toNat_lt
    have hfirst : UInt8.ofNat (a.toNat / 4 * 4 + (a.toNat % 4 * 16 + b.toNat / 16) / 16) = a :=
      octet_eq (by omega)
    have hsecond : UInt8.ofNat ((a.toNat % 4 * 16 + b.toNat / 16) % 16 * 16 +
        (b.toNat % 16 * 4 + c.toNat / 64) / 4) = b := octet_eq (by omega)
    have hthird : UInt8.ofNat ((b.toNat % 16 * 4 + c.toNat / 64) % 4 * 64 + c.toNat % 64) = c :=
      octet_eq (by omega)
    simp only [encode, decode?, bits?_symbol _ (show a.toNat / 4 < 64 by omega),
      bits?_symbol _ (show a.toNat % 4 * 16 + b.toNat / 16 < 64 by omega),
      bits?_symbol _ (show b.toNat % 16 * 4 + c.toNat / 64 < 64 by omega),
      bits?_symbol _ (show c.toNat % 64 < 64 by omega), Option.bind_eq_bind, Option.bind_some,
      hfirst, hsecond, hthird, ih, Option.map_some]
    rfl

/-- No point occurs in what is encoded. -/
theorem notMem_encode (bs : List UInt8) : '.' ∉ encode bs := by
  induction bs using encode.induct with
  | case1 => exact List.not_mem_nil
  | case2 a =>
    have ha := a.toNat_lt
    simp only [encode, List.mem_cons, List.not_mem_nil, not_or]
    exact ⟨symbol_ne _ (by omega), symbol_ne _ (by omega), not_false⟩
  | case3 a b =>
    have ha := a.toNat_lt
    have hb := b.toNat_lt
    simp only [encode, List.mem_cons, List.not_mem_nil, not_or]
    exact ⟨symbol_ne _ (by omega), symbol_ne _ (by omega), symbol_ne _ (by omega), not_false⟩
  | case4 a b c rest ih =>
    have ha := a.toNat_lt
    have hb := b.toNat_lt
    have hc := c.toNat_lt
    simp only [encode, List.mem_cons, not_or]
    exact ⟨symbol_ne _ (by omega), symbol_ne _ (by omega), symbol_ne _ (by omega),
      symbol_ne _ (by omega), ih⟩

end Base64Url

end SharedLedger
