import AgentSideCar.Http.Server
import AgentSideCar.Library.Base64
import AgentSideCar.Library.PlainLoads

namespace AgentSideCar.Http
open Loads (Plain Value Text str)

def maximum : Nat := 512

def equals : UInt8 := 61

-- One line, with its feed.
def lineOf (raw : Bytes) : Option Bytes := if raw.getLast? = some lf ∧ raw.count lf = 1 then some raw.dropLast else none

-- A text that is the URL-safe base64 of so many bytes, and no other spelling of them.
def canonical (least : Nat) (encoded : Bytes) : Bool :=
  if encoded = [] ∨ equals ∈ encoded then false
  else match Base64.decode encoded with
    | none => false
    | some decoded => decide (least ≤ decoded.length) && decide (Base64.encode decoded = encoded)

def decodeToken (raw : Bytes) : Option Bytes := (lineOf raw).filter (canonical 32)

def decodeInstanceNonce : Value → Option Bytes
  | .text value => if value.all (· < 128) ∧ canonical 16 (value.map Nat.toUInt8) then some (value.map Nat.toUInt8) else none
  | _ => none

def portPayload (port : Nat) (nonce : Bytes) : Bytes :=
  ascii "\x7b\"nonce\":\"" ++ nonce ++ ascii "\",\"port\":" ++ decimal port ++ ascii "\x7d\n"

def field (fields : List (Text × Value)) (key : String) : Option Value := (fields.find? fun f => f.1 = str key).map Prod.snd

def keysAre (fields : List (Text × Value)) (keys : List Text) : Bool :=
  fields.all (fun f => keys.contains f.1) && keys.all fun key => fields.any fun f => f.1 = key

def loadPortRecord (p : Plain) (data : Bytes) : Option (Nat × Bytes) :=
  if maximum < data.length then none
  else (lineOf data).bind fun line =>
    if line.all (· < 128) = false then none
    else match p.loads (line.map UInt8.toNat) with
      | .ok (.dict fields) =>
        if keysAre fields [str "port",str "nonce"] = false then none
        else match field fields "port",(field fields "nonce").bind decodeInstanceNonce with
          | some (.int port),some nonce =>
            if 1 ≤ port ∧ port ≤ 65535 ∧ data = portPayload port.toNat nonce then some (port.toNat,nonce) else none
          | _,_ => none
      | _ => none

theorem lineOf_exact (raw line : Bytes) : lineOf raw = some line ↔ raw = line ++ [lf] ∧ lf ∉ line := by
  unfold lineOf
  constructor
  · intro own
    split at own
    · rename_i single
      cases own
      obtain ⟨row,rfl⟩ := List.getLast?_eq_some_iff.mp single.1
      have once := single.2
      rw [List.count_append,List.count_singleton_self] at once
      rw [List.dropLast_concat]
      exact ⟨rfl,List.count_eq_zero.mp (by omega)⟩
    · cases own
  · rintro ⟨rfl,clean⟩
    rw [if_pos ⟨by simp,by rw [List.count_append,List.count_singleton_self,List.count_eq_zero.mpr clean]⟩,List.dropLast_concat]

theorem canonical_exact (positive : 0 < least) (encoded : Bytes) :
    canonical least encoded = true ↔ ∃ secret, least ≤ secret.length ∧ encoded = Base64.encode secret := by
  unfold canonical
  constructor
  · intro fits
    split at fits
    · cases fits
    · split at fits
      · cases fits
      · rename_i secret _
        obtain ⟨long,same⟩ : least ≤ secret.length ∧ Base64.encode secret = encoded := by simpa using fits
        exact ⟨secret,long,same.symm⟩
  · rintro ⟨secret,long,rfl⟩
    have some' : secret ≠ [] := by
      rintro rfl
      rw [List.length_nil] at long
      omega
    have unpadded : equals ∉ Base64.encode secret := by
      intro inside
      have plain := Base64.encode_plain secret equals inside
      revert plain
      decide
    rw [if_neg (not_or.mpr ⟨Base64.encode_some some',unpadded⟩),Base64.decode_encode]
    simpa using long

-- A token file is accepted exactly if it holds one line, the base64 of a secret of 32 bytes or more.
theorem decodeToken_exact (raw token : Bytes) : decodeToken raw = some token ↔
    raw = token ++ [lf] ∧ ∃ secret, 32 ≤ secret.length ∧ token = Base64.encode secret := by
  rw [decodeToken,Option.filter_eq_some_iff,lineOf_exact,canonical_exact (by decide)]
  constructor
  · rintro ⟨⟨own,_⟩,secret⟩
    exact ⟨own,secret⟩
  · rintro ⟨rfl,secret,long,rfl⟩
    refine ⟨⟨rfl,fun inside => ?_⟩,secret,long,rfl⟩
    have plain := Base64.encode_plain secret lf inside
    revert plain
    decide

section Record
variable {p : Plain}

def codes (t : Bytes) : Text := t.map UInt8.toNat

theorem decimal_codes (n : Nat) : codes (decimal n) = (Digits.digits n).map Char.toNat := by
  rw [codes,decimal,List.map_map]
  refine List.map_congr_left fun c inside => ?_
  have small := (Dumps.digit_inner (Dumps.digits_isDigit n c.toNat (List.mem_map_of_mem inside))).2
  exact Dumps.octet (by omega)

theorem decimal_head (positive : 0 < n) : ∃ c rest, codes (decimal n) = c :: rest ∧ c ≠ 48 := by
  obtain ⟨c,rest,shape⟩ := List.exists_cons_of_ne_nil (Digits.digits_nonempty n)
  refine ⟨c.toNat,rest.map Char.toNat,by rw [decimal_codes,shape]; rfl,fun zero => Digits.digits_lead positive ?_⟩
  rw [shape]
  exact congrArg some (Char.toNat_inj.mp zero)

theorem decimal_short (small : n ≤ 65535) : (decimal n).length ≤ 5 := by
  have grows : (Digits.digits n).length ≤ 5 := by
    rw [Digits.digits,Nat.length_toDigits_le_iff (by decide) (by decide)]
    omega
  simpa [decimal] using grows

def opening : Bytes := ascii "\x7b\"nonce\":\""
def middle : Bytes := ascii "\",\"port\":"

theorem opening_walk : Plain.walk 1 Loads.start (codes opening) = some ⟨.string false [],[.dict [] (str "nonce")]⟩ := rfl

theorem middle_walk (out : Text) : Plain.walk 1 ⟨.string false out,[.dict [] (str "nonce")]⟩ (codes middle) =
    some ⟨.value,[.dict [(str "nonce",.text out.reverse)] (str "port")]⟩ := rfl

theorem sign_codes (b : UInt8) (plain : (48 ≤ b ∧ b ≤ 57) ∨ (65 ≤ b ∧ b ≤ 90) ∨ (97 ≤ b ∧ b ≤ 122) ∨ b = 45 ∨ b = 95) :
    b.toNat ≠ Loads.quote ∧ b.toNat ≠ Loads.backslash ∧ 32 ≤ b.toNat ∧ b.toNat < 128 := by
  simp only [UInt8.le_iff_toNat_le,← UInt8.toNat_inj] at plain
  change (48 ≤ b.toNat ∧ b.toNat ≤ 57) ∨ (65 ≤ b.toNat ∧ b.toNat ≤ 90) ∨ (97 ≤ b.toNat ∧ b.toNat ≤ 122) ∨ b.toNat = 45 ∨ b.toNat = 95 at plain
  unfold Loads.quote Loads.backslash
  omega

theorem record_signs (port : Nat) (secret : List UInt8) : ∀ b ∈ opening ++ Base64.encode secret ++ middle ++ decimal port ++ [125],
    32 ≤ b.toNat ∧ b.toNat < 128 := by
  have digits : ∀ b ∈ decimal port, 32 ≤ b.toNat ∧ b.toNat < 128 := by
    intro b inside
    have code : b.toNat ∈ codes (decimal port) := List.mem_map_of_mem inside
    rw [decimal_codes] at code
    have digit := Dumps.digits_isDigit port _ code
    have bounds : 48 ≤ b.toNat ∧ b.toNat ≤ 57 := by simpa [Loads.isDigit] using digit
    omega
  intro b inside
  simp only [List.mem_append] at inside
  rcases inside with (((first | secret') | second) | figure) | last
  · simpa using List.all_eq_true.mp (by decide : (opening.all fun b => 32 ≤ b.toNat && b.toNat < 128) = true) b first
  · obtain ⟨_,_,solid,narrow⟩ := sign_codes b (Base64.encode_plain secret b secret')
    exact ⟨solid,narrow⟩
  · simpa using List.all_eq_true.mp (by decide : (middle.all fun b => 32 ≤ b.toNat && b.toNat < 128) = true) b second
  · exact digits b figure
  · rw [List.mem_singleton.mp last]
    decide

theorem record_read (deep : 1 ≤ p.depth) (digits : ∀ most, p.digits = some most → 5 ≤ most) (least : 1 ≤ port) (most : port ≤ 65535)
    (secret : List UInt8) : p.loads (codes (opening ++ Base64.encode secret ++ middle ++ decimal port ++ [125])) =
      .ok (.dict [(str "nonce",.text (codes (Base64.encode secret))),(str "port",.int port)]) := by
  have plain : ∀ c ∈ codes (Base64.encode secret), c ≠ Loads.quote ∧ c ≠ Loads.backslash ∧ 32 ≤ c := by
    intro c inside
    obtain ⟨b,among,rfl⟩ := List.mem_map.mp inside
    obtain ⟨apart,unescaped,solid,_⟩ := sign_codes b (Base64.encode_plain secret b among)
    exact ⟨apart,unescaped,solid⟩
  have nonce : Plain.walk 1 ⟨.string false [],[.dict [] (str "nonce")]⟩ (codes (Base64.encode secret)) = _ :=
    Plain.walk_string false [] [.dict [] (str "nonce")] (by decide) plain fun _ => rfl
  obtain ⟨c,rest,shape,lead⟩ := decimal_head least
  have figures : ∀ d ∈ c :: rest, Loads.isDigit d = true := by
    rw [← shape,decimal_codes]
    exact Dumps.digits_isDigit port
  have value : Loads.digitsValue (c :: rest) = port := by
    rw [← shape,decimal_codes]
    exact Dumps.digits_value port
  have short : ∀ most, p.digits = some most → (c :: rest).length ≤ most := by
    intro bound limited
    rw [← shape,codes,List.length_map]
    exact Nat.le_trans (decimal_short most) (digits bound limited)
  have text : codes (opening ++ Base64.encode secret ++ middle ++ decimal port ++ [125]) =
      codes opening ++ (codes (Base64.encode secret) ++ (codes middle ++ (c :: rest ++ 125 :: []))) := by
    rw [← shape]
    simp [codes]
  have passed : Loads.pass (Plain.settle (Loads.complete (.int (Loads.digitsValue (c :: rest)))
      [.dict [(str "nonce",.text (codes (Base64.encode secret)))] (str "port")])) 125 =
      some ⟨.done (.dict [(str "nonce",.text (codes (Base64.encode secret))),(str "port",.int port)]),[]⟩ := by
    rw [value]
    rfl
  have ended := Plain.read_integer_end lead figures short (by simpa using deep) (fun _ => rfl) rfl passed []
  rw [Plain.loads,text,Plain.read_walk deep opening_walk,Plain.read_walk deep nonce,Plain.read_walk deep (middle_walk _)]
  simp only [List.append_nil,List.reverse_reverse]
  rw [ended]
  rfl

theorem nonce_read (secret : List UInt8) (long : 16 ≤ secret.length) :
    decodeInstanceNonce (.text (codes (Base64.encode secret))) = some (Base64.encode secret) := by
  have back : (codes (Base64.encode secret)).map Nat.toUInt8 = Base64.encode secret := by
    rw [codes,List.map_map]
    refine List.map_id'' (fun b => ?_) _
    simp [Nat.toUInt8]
  have narrow : (codes (Base64.encode secret)).all (· < 128) = true := by
    rw [List.all_eq_true]
    intro c inside
    obtain ⟨b,among,rfl⟩ := List.mem_map.mp inside
    exact decide_eq_true (sign_codes b (Base64.encode_plain secret b among)).2.2.2
  rw [decodeInstanceNonce,back,if_pos ⟨narrow,(canonical_exact (by decide) _).mpr ⟨secret,long,rfl⟩⟩]

theorem nonce_written (read : decodeInstanceNonce value = some nonce) : ∃ secret, 16 ≤ secret.length ∧ nonce = Base64.encode secret := by
  unfold decodeInstanceNonce at read
  split at read
  · split at read
    · rename_i fits
      cases read
      exact (canonical_exact (by decide) _).mp fits.2
    · cases read
  · cases read

-- A port file is accepted exactly if it is what a server writes for a port and a nonce of 16 bytes or more.
theorem loadPortRecord_exact (deep : 1 ≤ p.depth) (digits : ∀ most, p.digits = some most → 5 ≤ most) (data : Bytes) (port : Nat) (nonce : Bytes) :
    loadPortRecord p data = some (port,nonce) ↔ data = portPayload port nonce ∧ (1 ≤ port ∧ port ≤ 65535) ∧ data.length ≤ maximum ∧
      ∃ secret, 16 ≤ secret.length ∧ nonce = Base64.encode secret := by
  constructor
  · intro loaded
    unfold loadPortRecord at loaded
    split at loaded
    · cases loaded
    · rename_i within
      obtain ⟨line,_,loaded⟩ := Option.bind_eq_some_iff.mp loaded
      split at loaded
      · cases loaded
      · split at loaded
        · split at loaded
          · cases loaded
          · split at loaded
            · rename_i read
              split at loaded
              · rename_i fits
                cases loaded
                obtain ⟨_,_,read⟩ := Option.bind_eq_some_iff.mp read
                exact ⟨fits.2.2,⟨by omega,by omega⟩,by omega,nonce_written read⟩
              · cases loaded
            · cases loaded
        · cases loaded
  · rintro ⟨own,⟨least,most⟩,within,secret,long,rfl⟩
    have line : portPayload port (Base64.encode secret) =
        (opening ++ Base64.encode secret ++ middle ++ decimal port ++ [125]) ++ [lf] := by
      have ends : ascii "\x7d\n" = [125] ++ [lf] := by decide
      rw [portPayload,ends,← List.append_assoc]
      rfl
    have clean : lf ∉ opening ++ Base64.encode secret ++ middle ++ decimal port ++ [125] := by
      intro inside
      have sign := record_signs port secret lf inside
      revert sign
      decide
    have narrow : (opening ++ Base64.encode secret ++ middle ++ decimal port ++ [125]).all (· < 128) = true := by
      rw [List.all_eq_true]
      intro b inside
      exact decide_eq_true (UInt8.lt_iff_toNat_lt.mpr (record_signs port secret b inside).2)
    unfold loadPortRecord
    rw [if_neg (by omega),(lineOf_exact _ _).mpr ⟨own.trans line,clean⟩]
    simp only [Option.bind_some,narrow]
    have read := record_read deep digits least most secret
    rw [codes] at read
    rw [if_neg (by simp),read]
    simp only
    have port' : field [(str "nonce",.text (codes (Base64.encode secret))),(str "port",.int port)] "port" = some (.int port) := rfl
    have nonce' : field [(str "nonce",.text (codes (Base64.encode secret))),(str "port",.int port)] "nonce" =
      some (.text (codes (Base64.encode secret))) := rfl
    rw [port',nonce',Option.bind_some,nonce_read secret long]
    simp only
    rw [if_neg (by nofun),if_pos ⟨by omega,by omega,own⟩]
    rfl

theorem demo_record : loadPortRecord ⟨1000,some 4300,fun _ => .null⟩ (portPayload 8080 (Base64.encode (List.replicate 24 7))) =
    some (8080,Base64.encode (List.replicate 24 7)) :=
  (loadPortRecord_exact (by decide) (by rintro _ ⟨⟩; decide) _ _ _).mpr ⟨rfl,by decide,by decide,_,by decide,rfl⟩

end Record

end AgentSideCar.Http
