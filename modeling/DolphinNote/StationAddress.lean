/-
DolphinNote/StationAddress.lean

The address of the board, as it is read out of the reply of the module:
`cc3200_get_staip` and `ASCII_to_binary`.

The function searches a comma, three dots and a comma, puts a zero in place of each
stop, and copies what is in front of it to an array of three bytes.

* `Shape` — the reply has these stops, and `t` are the four texts in front of them;
  `Address` — the texts are decimal numbers below 256.
* `octet_cut`, `octet_ok` — one text.
* `getStaip_of_shape`, `shape_of_getStaip` — the function succeeds exactly on a shape
  whose texts have at most two characters, since a third one overflows its array.
* `parses_iff` — it does what is expected of it exactly if the reply is an address of
  such texts.
-/
import DolphinNote.AtCommand

namespace DolphinNote

open Transition CString

/-! ### The function -/

/-- What goes wrong: an access through a null pointer, a store behind an array of three
bytes, or one behind the reply buffer. -/
inductive StaipFault
  | nullPointer
  | localArray
  | replyBuffer
  deriving DecidableEq, Repr

/-- `ASCII_to_binary` -/
def asciiToBinary {n : ℕ} (data : Buffer n) (len : UInt8) : UInt8 :=
  (List.range len.toNat).foldl (fun dataT i => dataT * 10 + (data.rd i - 48)) 0

/-- `sprintf(Local_IP0, "%s", str)` for an array of three zeros. -/
def sprintf (str : List UInt8) : Except StaipFault (Buffer 3) :=
  if str.length + 1 ≤ 3 then .ok (Buffer.tabulate 3 fun i => str.getD i 0) else .error .localArray

/-- The text between `p` and the next `stop`: the buffer with a zero in place of the
stop, the place of the stop, and the number. -/
def octet (buf : Buffer 200) (p : ℕ) (stop : UInt8) : Except StaipFault (Buffer 200 × ℕ × UInt8) :=
  match strstr [stop] (cstring buf (p + 1)) with
  | none => .error .nullPointer
  | some k =>
      if h : p + 1 + k < 200 then do
        let buf := buf.wr (p + 1 + k) 0 h
        let localIP ← sprintf (cstring buf (p + 1))
        pure (buf, p + 1 + k, asciiToBinary localIP (UInt8.ofNat k))
      else .error .replyBuffer

/-- `Local_IP[i]=x` -/
def setOctet (localIP : Buffer 4) (i : Fin 4) (x : UInt8) : Buffer 4 := localIP.wr i x i.isLt

/-- `"DHCP"` -/
def dhcp : List UInt8 := [68, 72, 67, 80]

/-- `cc3200_get_staip` behind its `cc3200_send_cmd`. -/
def cc3200GetStaip (s : Sending) (localIP : Buffer 4) : Except StaipFault (Buffer 4) :=
  if s.res = some 0 then
    match (cc3200CheckCmd s.rx [44]).result? with
    | none => .error .replyBuffer
    | some (_, none) => .error .nullPointer
    | some (rx, some p) => do
        let (buf, p1, ip0) ← octet rx.usart2RxBuf p 46
        let localIP := setOctet localIP 0 ip0
        let (buf, p2, ip1) ← octet buf p1 46
        let localIP := setOctet localIP 1 ip1
        let (buf, p3, ip2) ← octet buf p2 46
        let localIP := setOctet localIP 2 ip2
        let (_, _, ip3) ← octet buf p3 44
        pure (setOctet localIP 3 ip3)
  else pure localIP

/-! ### Addresses -/

/-- A comma, and four texts with their stops. -/
def Shape (text : List UInt8) (t : Fin 4 → List UInt8) : Prop :=
  ∃ pre post, text = pre ++ 44 :: (t 0 ++ 46 :: (t 1 ++ 46 :: (t 2 ++ 46 :: (t 3 ++ 44 :: post)))) ∧
    44 ∉ pre ∧ 46 ∉ t 0 ∧ 46 ∉ t 1 ∧ 46 ∉ t 2 ∧ 44 ∉ t 3

/-- The number that decimal digits stand for. -/
def decimal (t : List UInt8) : ℕ := Nat.ofDigits 10 ((t.map fun c => c.toNat - 48).reverse)

/-- A decimal number from 0 to 255. -/
def Octet (t : List UInt8) (v : UInt8) : Prop :=
  t ≠ [] ∧ (∀ c ∈ t, 48 ≤ c.toNat ∧ c.toNat ≤ 57) ∧ decimal t = v.toNat

/-- Behind the first comma, four octets with dots between them, and a comma. -/
def Address (text : List UInt8) (t : Fin 4 → List UInt8) (ip : Buffer 4) : Prop :=
  Shape text t ∧ ∀ i, Octet (t i) (ip.rd i)

/-- An address is stored, and nothing else is done to `Local_IP`. -/
def Parses (text : List UInt8) (run : Buffer 4 → Except StaipFault (Buffer 4)) : Prop :=
  ∀ localIP,
    (∃ t ip, Address text t ip ∧ run localIP = .ok ip) ∨
      ((¬ ∃ t ip, Address text t ip) ∧ run localIP = .ok localIP)

/-! ### Numbers -/

section Numbers

variable {n : ℕ} {v : Buffer n} {len : UInt8} {t : List UInt8} {c : UInt8}

theorem asciiToBinary_eq_foldl (v : Buffer n) (len : UInt8) :
    asciiToBinary v len = (v.bytes len.toNat).foldl (fun dataT c => dataT * 10 + (c - 48)) 0 := by
  rw [Buffer.bytes, List.foldl_map]
  rfl

theorem decimal_concat (t : List UInt8) (c : UInt8) :
    decimal (t ++ [c]) = 10 * decimal t + (c.toNat - 48) := by
  rw [decimal, List.map_append, List.reverse_append]
  show Nat.ofDigits 10 ((c.toNat - 48) :: _) = _
  rw [Nat.ofDigits_cons, Nat.add_comm]
  rfl

/-- What `ASCII_to_binary` makes of a text. -/
def number (t : List UInt8) : UInt8 := t.foldl (fun dataT c => dataT * 10 + (c - 48)) 0

/-- The number is computed modulo 256. -/
theorem toNat_number (h : ∀ c ∈ t, 48 ≤ c.toNat ∧ c.toNat ≤ 57) :
    (number t).toNat = decimal t % 256 := by
  induction t using List.reverseRecOn with
  | nil => rfl
  | append_singleton t c ih =>
      have ih := ih fun d hd => h d (List.mem_append_left _ hd)
      have hc := h c (List.mem_append_right _ (List.mem_singleton_self c))
      have hsub : (c - 48).toNat = c.toNat - 48 :=
        UInt8.toNat_sub_of_le _ _ (UInt8.le_iff_toNat_le.mpr hc.1)
      rw [number, List.foldl_append, decimal_concat]
      show (number t * 10 + (c - 48)).toNat = _
      rw [UInt8.toNat_add, UInt8.toNat_mul, ih, hsub]
      show (decimal t % 256 * 10 % 256 + (c.toNat - 48)) % 256 = _
      omega

theorem Octet.number_eq {x : UInt8} (h : Octet t x) : number t = x := by
  obtain ⟨-, hdigits, hval⟩ := h
  apply UInt8.toNat.inj
  rw [toNat_number hdigits, hval]
  exact Nat.mod_eq_of_lt x.toNat_lt

theorem bytes_tabulate (h : t.length ≤ n) :
    (Buffer.tabulate n fun i => t.getD i 0).bytes t.length = t := by
  refine List.ext_getElem (Buffer.length_bytes _ _) fun i hi hi' => ?_
  have hrd := Buffer.rd_tabulate (fun i => t.getD i 0) (hi'.trans_le h)
  simp only [Buffer.bytes, List.getElem_map, List.getElem_range, hrd]
  exact List.getD_eq_getElem _ _ hi'

/-- A text of at most two characters is copied and read. -/
theorem sprintf_of_le (h : t.length ≤ 2) :
    ∃ localIP, sprintf t = .ok localIP ∧ asciiToBinary localIP (UInt8.ofNat t.length) = number t := by
  refine ⟨_, if_pos (Nat.succ_le_succ h), ?_⟩
  have hlen : (UInt8.ofNat t.length).toNat = t.length :=
    UInt8.toNat_ofNat_of_lt' (h.trans_lt (by decide))
  rw [asciiToBinary_eq_foldl, hlen, bytes_tabulate (h.trans (by decide))]
  rfl

end Numbers

/-! ### One text -/

section Texts

variable {buf : Buffer 200} {p : ℕ} {stop : UInt8} {a b t : List UInt8}
  {r : Buffer 200 × ℕ × UInt8}

/-- A text of at most two characters and its stop: the number is read, and the rest of
the reply is behind the stop. -/
theorem octet_cut (h : Holds buf (p + 1) (a ++ stop :: b)) (hstop : stop ∉ a) (ha : a.length ≤ 2) :
    ∃ buf', octet buf p stop = .ok (buf', p + 1 + a.length, number a) ∧
      Holds buf' (p + 1 + a.length + 1) b := by
  have hlt : p + 1 + a.length < 200 := h.symbol_lt
  obtain ⟨hcopy, hrest⟩ := h.cut hlt
  obtain ⟨localIP, hprint, hnumber⟩ := sprintf_of_le ha
  refine ⟨_, ?_, hrest⟩
  rw [octet, cstring_of_holds h, strstr_singleton hstop]
  dsimp only
  rw [dif_pos hlt, cstring_of_holds hcopy, hprint, ← hnumber]
  rfl

/-- Where the number is read, there is a stop, and in front of it a text of at most two
characters. -/
theorem octet_ok (h : Holds buf (p + 1) t) (hok : octet buf p stop = .ok r) :
    ∃ a b, t = a ++ stop :: b ∧ stop ∉ a ∧ a.length ≤ 2 := by
  by_cases hmem : stop ∈ t
  · obtain ⟨a, b, rfl, hstop⟩ := exists_first hmem
    refine ⟨a, b, rfl, hstop, ?_⟩
    by_contra hlong
    have hlt : p + 1 + a.length < 200 := h.symbol_lt
    have hprint : sprintf a = .error .localArray := if_neg (by omega)
    rw [octet, cstring_of_holds h, strstr_singleton hstop] at hok
    dsimp only at hok
    rw [dif_pos hlt, cstring_of_holds (h.cut hlt).1, hprint] at hok
    cases hok
  · rw [octet, cstring_of_holds h, strstr_singleton_none hmem] at hok
    cases hok

end Texts

/-! ### The reply -/

section Reply

variable {rx rx' : AtRx} {ack : List UInt8} {s s' : Sending}

/-- The reply is complete, and terminated in the buffer. -/
structure Acknowledged (rx : AtRx) : Prop where
  flag : rx.usart2RxSta &&& 0x8000 ≠ 0
  room : (rx.usart2RxSta &&& 0x7FFF).toNat < 200
  ends : rx.usart2RxBuf.rd (rx.usart2RxSta &&& 0x7FFF).toNat = 0

theorem acknowledged_of_check {str : List UInt8} {i : ℕ}
    (h : (cc3200CheckCmd rx str).result? = some (rx', some i)) : Acknowledged rx' := by
  rw [cc3200CheckCmd] at h
  by_cases hflag : rx.usart2RxSta &&& 0x8000 ≠ 0
  · rw [if_pos hflag] at h
    by_cases hroom : (rx.usart2RxSta &&& 0x7FFF).toNat < 200
    · rw [store_of_lt hroom] at h
      obtain ⟨rfl, -⟩ := Prod.mk.inj (Option.some.inj h)
      exact ⟨hflag, hroom, Buffer.rd_wr_self rx.usart2RxBuf _ 0 hroom⟩
    · rw [store_of_le (Nat.not_lt.mp hroom)] at h
      cases h
  · rw [if_neg hflag] at h
    cases h

/-- Another check finds the buffer as it is. -/
theorem Acknowledged.check (h : Acknowledged rx) (str : List UInt8) :
    (cc3200CheckCmd rx str).result? = some (rx, strstr str (cstring rx.usart2RxBuf 0)) := by
  have hsame : rx.usart2RxBuf.wr (rx.usart2RxSta &&& 0x7FFF).toNat 0 h.room = rx.usart2RxBuf :=
    (Buffer.wr_eq_self_iff h.room).mpr h.ends
  rw [cc3200CheckCmd, if_pos h.flag, store_of_lt h.room, hsame]
  rfl

theorem Acknowledged.holds (h : Acknowledged rx) :
    Holds rx.usart2RxBuf 0 (cstring rx.usart2RxBuf 0) := by
  have hterm := holds_terminated (v := rx.usart2RxBuf) h.room
  rw [(Buffer.wr_eq_self_iff h.room).mpr h.ends] at hterm
  rwa [cstring_of_holds hterm]

/-- One event. -/
theorem acknowledged_step {e : AtEvent} (hs : s.step ack e = some s') (h0 : s'.res = some 0) :
    Acknowledged s'.rx := by
  obtain ⟨hres, hs⟩ := Option.ite_none_right_eq_some.mp hs
  cases e with
  | byte res =>
      obtain ⟨rx, -, rfl⟩ := Option.map_eq_some_iff.mp hs
      cases hres.symm.trans h0
  | timeout =>
      obtain rfl := Option.some.inj hs
      cases hres.symm.trans h0
  | poll =>
      have hcountdown (t : Sending) : t.countdown.res ≠ some 0 := by
        rw [Sending.countdown]
        dsimp only
        split_ifs <;> decide
      have hs : s.poll ack = some s' := hs
      rw [Sending.poll] at hs
      split_ifs at hs with hflag
      · rcases hcheck : (cc3200CheckCmd s.rx ack).result? with - | ⟨rx, - | i⟩
        · rw [hcheck] at hs
          cases hs
        · rw [hcheck] at hs
          obtain rfl := Option.some.inj hs
          exact absurd h0 (hcountdown _)
        · rw [hcheck] at hs
          obtain rfl := Option.some.inj hs
          exact acknowledged_of_check hcheck
      · obtain rfl := Option.some.inj hs
        exact absurd h0 (hcountdown _)

/-- A call that has returned 0 has left the reply in the buffer. -/
theorem acknowledged_of_run {es : List AtEvent}
    (h : exec (Sending.step ack) (cc3200SendCmd (some ack) 50 rx) es = some s)
    (h0 : s.res = some 0) : Acknowledged s.rx := by
  have hreach : Reachable (Sending.step ack) (cc3200SendCmd (some ack) 50 rx) s := ⟨es, h⟩
  refine hreach.invariant (I := fun t => t.res = some 0 → Acknowledged t.rx) ?_ ?_ h0
  · intro hstart
    have hnone : (cc3200SendCmd (some ack) 50 rx).res = none := by
      rw [cc3200SendCmd, if_pos ⟨rfl, by decide⟩]
      exact if_neg (show ¬ (50 - 1 : UInt16) = 0 by decide)
    cases hnone.symm.trans hstart
  · intro t e t' _ ht h0'
    exact acknowledged_step ht h0'

end Reply

/-! ### Four texts -/

section Parsing

variable {s : Sending} {t : Fin 4 → List UInt8} {text : List UInt8} {ip localIP : Buffer 4}

/-- The four numbers. -/
def numbers (t : Fin 4 → List UInt8) : Buffer 4 :=
  #v[number (t 0), number (t 1), number (t 2), number (t 3)]

theorem setOctet_all (localIP : Buffer 4) (x₀ x₁ x₂ x₃ : UInt8) :
    setOctet (setOctet (setOctet (setOctet localIP 0 x₀) 1 x₁) 2 x₂) 3 x₃ =
      #v[x₀, x₁, x₂, x₃] := by
  refine Buffer.ext_rd fun i hi => ?_
  unfold setOctet
  interval_cases i <;> simp only [Buffer.rd_wr] <;> rfl

/-- Behind the first comma. -/
theorem Acknowledged.behind {rx : AtRx} {pre rest : List UInt8} (hack : Acknowledged rx)
    (htext : cstring rx.usart2RxBuf 0 = pre ++ 44 :: rest) :
    Holds rx.usart2RxBuf (pre.length + 1) rest := by
  have hholds := hack.holds
  rw [htext, List.append_cons] at hholds
  have hbehind := hholds.behind
  rwa [List.length_append, List.length_singleton, Nat.zero_add] at hbehind

/-- The reply has the shape, and no text has more than two characters: the numbers are
stored. -/
theorem getStaip_of_shape (h0 : s.res = some 0) (hack : Acknowledged s.rx)
    (hshape : Shape (cstring s.rx.usart2RxBuf 0) t) (hshort : ∀ i, (t i).length ≤ 2)
    (localIP : Buffer 4) : cc3200GetStaip s localIP = .ok (numbers t) := by
  obtain ⟨pre, post, htext, hpre, h46₀, h46₁, h46₂, h44⟩ := hshape
  have hcomma : (cc3200CheckCmd s.rx [44]).result? = some (s.rx, some pre.length) := by
    rw [hack.check, htext, strstr_singleton hpre]
  obtain ⟨buf₁, hoct₀, hholds₁⟩ := octet_cut (hack.behind htext) h46₀ (hshort 0)
  obtain ⟨buf₂, hoct₁, hholds₂⟩ := octet_cut hholds₁ h46₁ (hshort 1)
  obtain ⟨buf₃, hoct₂, hholds₃⟩ := octet_cut hholds₂ h46₂ (hshort 2)
  obtain ⟨buf₄, hoct₃, -⟩ := octet_cut hholds₃ h44 (hshort 3)
  rw [cc3200GetStaip, if_pos h0, hcomma]
  dsimp only
  rw [hoct₀]
  show (octet buf₁ _ 46 >>= _) = _
  rw [hoct₁]
  show (octet buf₂ _ 46 >>= _) = _
  rw [hoct₂]
  show (octet buf₃ _ 44 >>= _) = _
  rw [hoct₃]
  exact congrArg Except.ok (setOctet_all localIP _ _ _ _)

/-- A computation that succeeds, and its first step. -/
theorem except_bind_ok {ε α β : Type} {x : Except ε α} {f : α → Except ε β} {b : β}
    (h : (x >>= f) = .ok b) : ∃ a, x = .ok a ∧ f a = .ok b := by
  cases x with
  | error e => cases h
  | ok a => exact ⟨a, rfl, h⟩

/-- Where the function succeeds, the reply has the shape, and no text has more than two
characters. -/
theorem shape_of_getStaip (h0 : s.res = some 0) (hack : Acknowledged s.rx)
    (hok : cc3200GetStaip s localIP = .ok ip) :
    ∃ t, Shape (cstring s.rx.usart2RxBuf 0) t ∧ ∀ i, (t i).length ≤ 2 := by
  rw [cc3200GetStaip, if_pos h0, hack.check] at hok
  by_cases hcomma : 44 ∈ cstring s.rx.usart2RxBuf 0
  · obtain ⟨pre, rest, htext, hpre⟩ := exists_first hcomma
    rw [htext, strstr_singleton hpre] at hok
    dsimp only at hok
    have hholds₀ := hack.behind htext
    obtain ⟨r₀, hoct₀, hok⟩ := except_bind_ok hok
    obtain ⟨t₀, rest, rfl, h46₀, hlen₀⟩ := octet_ok hholds₀ hoct₀
    obtain ⟨buf₁, hcut₀, hholds₁⟩ := octet_cut hholds₀ h46₀ hlen₀
    obtain rfl := Except.ok.inj (hcut₀.symm.trans hoct₀)
    obtain ⟨r₁, hoct₁, hok⟩ := except_bind_ok hok
    obtain ⟨t₁, rest, rfl, h46₁, hlen₁⟩ := octet_ok hholds₁ hoct₁
    obtain ⟨buf₂, hcut₁, hholds₂⟩ := octet_cut hholds₁ h46₁ hlen₁
    obtain rfl := Except.ok.inj (hcut₁.symm.trans hoct₁)
    obtain ⟨r₂, hoct₂, hok⟩ := except_bind_ok hok
    obtain ⟨t₂, rest, rfl, h46₂, hlen₂⟩ := octet_ok hholds₂ hoct₂
    obtain ⟨buf₃, hcut₂, hholds₃⟩ := octet_cut hholds₂ h46₂ hlen₂
    obtain rfl := Except.ok.inj (hcut₂.symm.trans hoct₂)
    obtain ⟨r₃, hoct₃, -⟩ := except_bind_ok hok
    obtain ⟨t₃, post, rfl, h44, hlen₃⟩ := octet_ok hholds₃ hoct₃
    refine ⟨![t₀, t₁, t₂, t₃], ⟨pre, post, htext, hpre, h46₀, h46₁, h46₂, h44⟩, ?_⟩
    rw [Fin.forall_fin_succ, Fin.forall_fin_succ, Fin.forall_fin_succ, Fin.forall_fin_succ]
    exact ⟨hlen₀, hlen₁, hlen₂, hlen₃, nofun⟩
  · rw [strstr_singleton_none hcomma] at hok
    cases hok

/-- A reply has one shape. -/
theorem shape_unique {t t' : Fin 4 → List UInt8} (h : Shape text t) (h' : Shape text t') : t = t' := by
  obtain ⟨pre, post, rfl, hpre, h46₀, h46₁, h46₂, h44⟩ := h
  obtain ⟨pre', post', htext, hpre', h46₀', h46₁', h46₂', h44'⟩ := h'
  obtain ⟨-, hrest⟩ := first_unique htext hpre hpre'
  obtain ⟨h₀, hrest⟩ := first_unique hrest h46₀ h46₀'
  obtain ⟨h₁, hrest⟩ := first_unique hrest h46₁ h46₁'
  obtain ⟨h₂, hrest⟩ := first_unique hrest h46₂ h46₂'
  obtain ⟨h₃, -⟩ := first_unique hrest h44 h44'
  funext i
  fin_cases i
  exacts [h₀, h₁, h₂, h₃]

/-- The numbers of an address are stored. -/
theorem Address.numbers_eq (h : Address text t ip) : numbers t = ip := by
  refine Buffer.ext_rd fun i hi => ?_
  have hrd : (numbers t).rd i = number (t ⟨i, hi⟩) := by
    interval_cases i <;> rfl
  rw [hrd]
  exact (h.2 ⟨i, hi⟩).number_eq

/-- A reply in one batch. -/
def oneBatch (reply : List UInt8) : List AtEvent := reply.map .byte ++ [.timeout, .poll]

/-- **The address of the board.**  Of the replies that have been acknowledged, the
function treats those as it should that are an address whose octets have at most two
digits. -/
theorem parses_iff {rx : AtRx} {es : List AtEvent}
    (hrun : exec (Sending.step dhcp) (cc3200SendCmd (some dhcp) 50 rx) es = some s)
    (h0 : s.res = some 0) :
    Parses (cstring s.rx.usart2RxBuf 0) (cc3200GetStaip s) ↔
      ∃ t ip, Address (cstring s.rx.usart2RxBuf 0) t ip ∧ ∀ i, (t i).length ≤ 2 := by
  have hack := acknowledged_of_run hrun h0
  constructor
  · intro hparses
    rcases hparses (Buffer.zero 4) with ⟨t, ip, haddr, hok⟩ | ⟨hnone, hok⟩
    · obtain ⟨t', hshape, hshort⟩ := shape_of_getStaip h0 hack hok
      obtain rfl := shape_unique haddr.1 hshape
      exact ⟨t, ip, haddr, hshort⟩
    · -- it stores the same numbers whatever has been there
      obtain ⟨t, hshape, hshort⟩ := shape_of_getStaip h0 hack hok
      have hstored := getStaip_of_shape h0 hack hshape hshort
      have hzero := Except.ok.inj (hok.symm.trans (hstored _))
      rcases hparses (Vector.replicate 4 1) with ⟨t, ip, haddr, -⟩ | ⟨-, hok'⟩
      · exact absurd ⟨t, ip, haddr⟩ hnone
      · have hone := Except.ok.inj (hok'.symm.trans (hstored _))
        exact absurd (hzero.trans hone.symm) (by decide)
  · rintro ⟨t, ip, haddr, hshort⟩ localIP
    refine .inl ⟨t, ip, haddr, ?_⟩
    rw [getStaip_of_shape h0 hack haddr.1 hshort, haddr.numbers_eq]

theorem parses_iff_short :
    ∃ s, exec (Sending.step dhcp) (cc3200SendCmd (some dhcp) 50 .powerOn)
        (oneBatch [68, 72, 67, 80, 44, 49, 48, 46, 48, 46, 48, 46, 55, 44]) = some s ∧
      s.res = some 0 ∧ (Parses (cstring s.rx.usart2RxBuf 0) (cc3200GetStaip s) ↔
        ∃ t ip, Address (cstring s.rx.usart2RxBuf 0) t ip ∧ ∀ i, (t i).length ≤ 2) := by
  have hrun : (exec (Sending.step dhcp) (cc3200SendCmd (some dhcp) 50 .powerOn)
      (oneBatch [68, 72, 67, 80, 44, 49, 48, 46, 48, 46, 48, 46, 55, 44])).map (·.res) =
        some (some 0) := by
    decide +kernel
  obtain ⟨s, hs, h0⟩ := Option.map_eq_some_iff.mp hrun
  exact ⟨s, hs, h0, parses_iff hs h0⟩

end Parsing

/-- An access that goes wrong is none of what is expected. -/
theorem not_parses_of_error {text : List UInt8} {run : Buffer 4 → Except StaipFault (Buffer 4)}
    {localIP : Buffer 4} {fault : StaipFault} (h : run localIP = .error fault) : ¬ Parses text run := by
  intro hparses
  rcases hparses localIP with ⟨t, ip, -, hok⟩ | ⟨-, hok⟩
  · cases h.symm.trans hok
  · cases h.symm.trans hok

/-- `DHCP,192.168.1.5,` overflows the first array, `DHCP` ends in a null pointer. -/
theorem parses_fails :
    ∃ s s', exec (Sending.step dhcp) (cc3200SendCmd (some dhcp) 50 .powerOn)
        (oneBatch [68, 72, 67, 80, 44, 49, 57, 50, 46, 49, 54, 56, 46, 49, 46, 53, 44]) = some s ∧
      s.res = some 0 ∧ cc3200GetStaip s (Buffer.zero 4) = .error .localArray ∧
      ¬ Parses (cstring s.rx.usart2RxBuf 0) (cc3200GetStaip s) ∧
      exec (Sending.step dhcp) (cc3200SendCmd (some dhcp) 50 .powerOn)
        (oneBatch [68, 72, 67, 80]) = some s' ∧
      s'.res = some 0 ∧ cc3200GetStaip s' (Buffer.zero 4) = .error .nullPointer ∧
      ¬ Parses (cstring s'.rx.usart2RxBuf 0) (cc3200GetStaip s') := by
  have hlong : (exec (Sending.step dhcp) (cc3200SendCmd (some dhcp) 50 .powerOn)
      (oneBatch [68, 72, 67, 80, 44, 49, 57, 50, 46, 49, 54, 56, 46, 49, 46, 53, 44])).map
        (fun s => (s.res, cc3200GetStaip s (Buffer.zero 4))) = some (some 0, .error .localArray) := by
    decide +kernel
  have hmissing : (exec (Sending.step dhcp) (cc3200SendCmd (some dhcp) 50 .powerOn)
      (oneBatch [68, 72, 67, 80])).map
        (fun s => (s.res, cc3200GetStaip s (Buffer.zero 4))) = some (some 0, .error .nullPointer) := by
    decide +kernel
  obtain ⟨s, hs, hpair⟩ := Option.map_eq_some_iff.mp hlong
  obtain ⟨s', hs', hpair'⟩ := Option.map_eq_some_iff.mp hmissing
  obtain ⟨h0, herr⟩ := Prod.mk.inj hpair
  obtain ⟨h0', herr'⟩ := Prod.mk.inj hpair'
  exact ⟨s, s', hs, h0, herr, not_parses_of_error herr, hs', h0', herr', not_parses_of_error herr'⟩

end DolphinNote
