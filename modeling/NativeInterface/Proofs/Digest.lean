import NativeInterface.Proofs.SurfaceJson
import NativeInterface.Surface.Digest
import Mathlib.Data.Nat.Digits.Defs

/-!
# What a digest identifies

The hexadecimal digest spells out the whole hash, and the canonical text spells out the whole
surface. So two surfaces with one digest are equal, or their canonical texts collide under the hash.
-/

namespace NativeInterface

/-! ## Hexadecimal -/

namespace Text

theorem pushDigit_digitChar {n d : Nat} (hd : d < 16) :
    pushDigit 16 n (Nat.digitChar d) = some (n * 16 + d) := by
  rw [pushDigit, Json.hexDigit?_digitChar d hd]
  exact if_pos hd

theorem foldlM_toDigits (n : Nat) : (Nat.toDigits 16 n).foldlM (pushDigit 16) 0 = some n := by
  induction n using Nat.strongRecOn with
  | ind n ih =>
    rw [Nat.toDigits_eq_if (by decide)]
    split
    · rename_i hn
      rw [List.foldlM_cons, pushDigit_digitChar hn, Nat.zero_mul, Nat.zero_add]
      rfl
    · rename_i hn
      have hlast : [Nat.digitChar (n % 16)].foldlM (pushDigit 16) (n / 16) = some n := by
        rw [List.foldlM_cons, pushDigit_digitChar (Nat.mod_lt n (by decide)), Nat.div_add_mod']
        rfl
      rw [List.foldlM_append, ih (n / 16) (by omega)]
      exact hlast

theorem foldlM_zeros (count : Nat) :
    (List.replicate count '0').foldlM (pushDigit 16) 0 = some 0 := by
  induction count with
  | zero => rfl
  | succ count ih => exact ih

/-- Leading zeros or not, a number is read back from its hexadecimal digits. -/
theorem readDigits_hex (width n : Nat) : readDigits 16 (hex width n).toList = some n := by
  rw [readDigits, if_neg (by simp [hex]), hex, String.toList_ofList, List.foldlM_append,
    foldlM_zeros]
  exact foldlM_toDigits n

theorem length_hex {width n : Nat} (hwidth : 0 < width) (hn : n < 16 ^ width) :
    (hex width n).toList.length = width := by
  have hlength := Nat.toDigits_length 16 n width hwidth hn
  rw [hex, String.toList_ofList, List.length_append, List.length_replicate]
  omega

end Text

namespace Sha256

/-- The digits of a word. -/
def wordDigits (w : UInt32) : List Char := (Text.hex 8 w.toNat).toList

theorem wordDigits_injective {v w : UInt32} (h : wordDigits v = wordDigits w) : v = w := by
  have hread := Text.readDigits_hex 8 v.toNat
  rw [show (Text.hex 8 v.toNat).toList = (Text.hex 8 w.toNat).toList from h,
    Text.readDigits_hex] at hread
  exact UInt32.toNat_inj.mp (Option.some.inj hread).symm

theorem length_wordDigits (w : UInt32) : (wordDigits w).length = 8 :=
  Text.length_hex (by decide) w.toNat_lt

theorem flatMap_wordDigits {vs ws : List UInt32} (hlength : vs.length = ws.length)
    (h : vs.flatMap wordDigits = ws.flatMap wordDigits) : vs = ws := by
  induction vs generalizing ws with
  | nil => exact (List.length_eq_zero_iff.mp hlength.symm).symm
  | cons v vs ih =>
    cases ws with
    | nil => cases hlength
    | cons w ws =>
      rw [List.flatMap_cons, List.flatMap_cons] at h
      obtain ⟨hfirst, hrest⟩ := List.append_inj h (by rw [length_wordDigits, length_wordDigits])
      rw [wordDigits_injective hfirst, ih (Nat.succ.inj hlength) hrest]

/-- The digest holds the whole hash. -/
theorem hash_of_hexDigest {a b : List UInt8} (h : hexDigest a = hexDigest b) : hash a = hash b := by
  have hdigits := congrArg String.toList h
  rw [hexDigest, hexDigest, String.toList_join, String.toList_join, List.flatMap_map,
    List.flatMap_map] at hdigits
  have hwords : (hash a).words = (hash b).words := flatMap_wordDigits rfl hdigits
  cases ha : hash a
  cases hb : hash b
  rw [ha, hb] at hwords
  simp only [State.words, List.cons.injEq] at hwords
  simp [hwords]

end Sha256

namespace Surface

/-- The bytes that the digest hashes. -/
def bytes (s : Surface) : List UInt8 := s.canonical.toUTF8.data.toList

theorem canonical_of_bytes {s t : Surface} (h : s.bytes = t.bytes) : s.canonical = t.canonical :=
  String.toByteArray_inj.mp (ByteArray.ext (Array.toList_inj.mp h))

/-- **A surface is what its text says.** It is read back from its canonical and its pretty text, the
latter with or without a line feed behind it. So two surfaces with the same canonical bytes are
equal, and two different ones with the same digest are a collision of the hash. That types nest at
most 64 layers deep, compiling guarantees. -/
theorem text_faithful :
    (∀ f : SourceFile, ∀ s, f.compile = .ok s → ∀ t ∈ s.types, t.depth ≤ 64) ∧
    ∀ s : Surface, s.Storable →
      read? s.canonical = some s ∧ read? s.toJson.pretty = some s ∧
        read? (s.toJson.pretty ++ "\n") = some s ∧
        ∀ t : Surface, t.Storable → (s.bytes = t.bytes → s = t) ∧
          (s.digest = t.digest →
            s = t ∨ s.bytes ≠ t.bytes ∧ Sha256.hash s.bytes = Sha256.hash t.bytes) := by
  refine ⟨fun f s h => SourceFile.depth_of_compile h, fun s hs => ?_⟩
  have hpretty := read?_pretty hs "" (by simp [Json.Blank])
  rw [String.append_empty] at hpretty
  refine ⟨read?_canonical hs, hpretty, read?_pretty hs "\n" (by simp [Json.Blank, Json.isSpace]),
    fun t ht => ?_⟩
  have hbytes : s.bytes = t.bytes → s = t := by
    intro h
    have hread := read?_canonical hs
    rw [canonical_of_bytes h, read?_canonical ht] at hread
    exact (Option.some.inj hread).symm
  refine ⟨hbytes, fun hdigest => ?_⟩
  by_cases heq : s = t
  · exact .inl heq
  · exact .inr ⟨mt hbytes heq, Sha256.hash_of_hexDigest hdigest⟩

/-- Names with a quote, a control and a letter outside ASCII, the largest arity, no tags against one
tag, and a compiled list type. -/
theorem text_faithful_names :
    let s : Surface :=
      { moduleName := "\"\x01é", interface := some (.many []), stateType := some ""
        functions := [⟨"f", 0xffffffffffffffff, [⟨"x", .list (.named "int")⟩],
          [⟨[.ofLabel "ok", .ofValue "n" (.list (.list (.named "[")))], "\\"⟩]⟩]
        dirty := [⟨"f", 1, .io⟩], sends := some ⟨[], "null"⟩ }
    let t : Surface := { s with interface := some (.single "[]") }
    let f : SourceFile := ⟨"a.spec", "spec f(x :: [[[int]]]) :: :ok"⟩
    let u : Surface :=
      { moduleName := "a.spec"
        functions := [⟨"f", 1, [⟨"x", .list (.list (.list (.named "int")))⟩],
          [⟨[.ofLabel "ok"], "f_result_ok"⟩]⟩] }
    s.Storable ∧ t.Storable ∧ s ≠ t ∧ read? s.canonical = some s ∧
      read? s.toJson.pretty = some s ∧ s.bytes ≠ t.bytes ∧
      f.compile = .ok u ∧ ∀ type ∈ u.types, type.depth ≤ 64 := by
  intro s t f u
  have hs : s.Storable := ⟨by decide +kernel, by decide +kernel, by decide +kernel⟩
  have ht : t.Storable := ⟨by decide +kernel, by decide +kernel, by decide +kernel⟩
  have hne : s ≠ t := by decide +kernel
  obtain ⟨hcanonical, hpretty, -, hsame⟩ := text_faithful.2 s hs
  refine ⟨hs, ht, hne, hcanonical, hpretty, fun h => hne ((hsame t ht).1 h), ?_⟩
  have hcompile : f.compile = .ok u := by decide +kernel
  exact ⟨hcompile, text_faithful.1 f u hcompile⟩

end Surface

end NativeInterface
