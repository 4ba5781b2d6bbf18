import EngramMcp.Infra.Text

/-!
# Hosts of a URL

A host is a domain, an IPv4 address or an IPv6 address. Its text tells the three apart: an IPv4
address is four decimal numbers with dots between them, an IPv6 address stands in square brackets,
and a domain is neither.

* `ipv4Text_inj` — an IPv4 address is told by its text
* `mem_ipv4Text` — which is digits and dots
-/

namespace Infra

/-- `url::Host`. -/
inductive Host
  | domain (name : String)
  | ipv4 (octets : Vector UInt8 4)
  | ipv6 (segments : Vector UInt16 8)
  deriving DecidableEq

/-- An IPv4 address in text. -/
def ipv4Text (octets : Vector UInt8 4) : String :=
  String.ofList (['.'].intercalate (octets.toList.map fun octet => Nat.toDigits 10 octet.toNat))

example : ipv4Text #v[127, 0, 0, 1] = "127.0.0.1" := by decide

/-- An address is told by its text. -/
theorem ipv4Text_inj {a b : Vector UInt8 4} : ipv4Text a = ipv4Text b ↔ a = b := by
  refine ⟨fun h => ?_, fun h => by rw [h]⟩
  have hparts : ∀ v : Vector UInt8 4,
      (['.'].intercalate (v.toList.map fun octet => Nat.toDigits 10 octet.toNat)).splitOn '.'
        = v.toList.map fun octet => Nat.toDigits 10 octet.toNat := by
    intro v
    refine List.splitOn_intercalate '.' ?_ ?_
    · intro part hpart hdot
      obtain ⟨octet, -, rfl⟩ := List.mem_map.mp hpart
      have hdigit := Nat.isDigit_of_mem_toDigits (by omega) (by omega) hdot
      exact absurd hdigit (by decide)
    · intro hnil
      have hlen := congrArg List.length hnil
      simp at hlen
  have hlists := congrArg (fun s : String => s.toList.splitOn '.') h
  unfold ipv4Text at hlists
  simp only [String.toList_ofList, hparts] at hlists
  have hdigits : Function.Injective fun octet : UInt8 => Nat.toDigits 10 octet.toNat := by
    intro x y hxy
    refine UInt8.toNat_inj.mp ?_
    calc x.toNat = Nat.ofDigitChars 10 (Nat.toDigits 10 x.toNat) 0 :=
          Nat.ofDigitChars_ten_toDigits.symm
      _ = Nat.ofDigitChars 10 (Nat.toDigits 10 y.toNat) 0 := congrArg _ hxy
      _ = y.toNat := Nat.ofDigitChars_ten_toDigits
  exact Vector.toList_inj.mp (List.map_injective_iff.mpr hdigits hlists)

/-- It is made of digits and dots. -/
theorem mem_ipv4Text {octets : Vector UInt8 4} {c : Char} (h : c ∈ (ipv4Text octets).toList) :
    c.isDigit = true ∨ c = '.' := by
  rw [ipv4Text, String.toList_ofList] at h
  generalize octets.toList = l at h
  induction l with
  | nil => exact nomatch h
  | cons octet l ih =>
    have hdigits : ∀ c ∈ Nat.toDigits 10 octet.toNat, c.isDigit = true ∨ c = '.' := fun c hc =>
      Or.inl (Nat.isDigit_of_mem_toDigits (by omega) (by omega) hc)
    cases l with
    | nil => exact hdigits c (by simpa using h)
    | cons next l =>
      rw [List.map_cons, List.map_cons, List.intercalate_cons_cons, List.mem_append,
        List.mem_append] at h
      rcases h with (h | h) | h
      · exact hdigits c h
      · exact Or.inr (List.mem_singleton.mp h)
      · exact ih h

/-- It has a dot. -/
theorem dot_mem_ipv4Text (octets : Vector UInt8 4) : '.' ∈ (ipv4Text octets).toList := by
  have hlen : octets.toList.length = 4 := Vector.length_toList
  rw [ipv4Text, String.toList_ofList]
  match octets.toList, hlen with
  | a :: b :: rest, _ =>
    rw [List.map_cons, List.map_cons, List.intercalate_cons_cons]
    simp

end Infra
