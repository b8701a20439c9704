import Mathlib.Data.Nat.Init
import Mathlib.Tactic.Common

namespace DapProxy.Host

structure Args where
  listen : String
  target : String
  web : String
  deriving DecidableEq

namespace Args

def usage : String :=
  "esp-daplink-host — 虚拟 USB CMSIS-DAP v2 探头（USB/IP 服务器）

用法:
  esp-daplink-host [--listen <addr>] [--target <host:port>] [--web <addr>]

选项:
  --listen <addr>       USB/IP 监听地址（默认 0.0.0.0:3240）
  --target <host:port>  ESP32 DAP TCP 地址（默认 192.168.137.96:8080）
  --web <addr>          Web 控制台监听地址（默认 127.0.0.1:3241）
  -h, --help            显示本帮助

环境变量:
  RUST_LOG              日志级别，例如 RUST_LOG=debug（默认 info）
"

def initial : Args := ⟨"0.0.0.0:3240", "192.168.137.151:8080", "127.0.0.1:3241"⟩

def missing (arg : String) : String := arg ++ " 缺少参数值"

def unknown (arg : String) : String := "未知参数: " ++ arg ++ "\n\n" ++ usage

def parseFrom : List String → Args → Except String Args
  | [], a => .ok a
  | arg :: it, a =>
      if arg = "--listen" then
        match it with
        | [] => .error (missing "--listen")
        | value :: it => parseFrom it { a with listen := value }
      else if arg = "--target" then
        match it with
        | [] => .error (missing "--target")
        | value :: it => parseFrom it { a with target := value }
      else if arg = "--web" then
        match it with
        | [] => .error (missing "--web")
        | value :: it => parseFrom it { a with web := value }
      else if arg = "-h" ∨ arg = "--help" then .error usage
      else .error (unknown arg)

def parse (it : List String) : Except String Args := parseFrom it initial

inductive Key where
  | listen
  | target
  | web

def Key.flag : Key → String
  | .listen => "--listen"
  | .target => "--target"
  | .web => "--web"

structure Setting where
  key : Key
  value : String

def Setting.words (s : Setting) : List String := [s.key.flag, s.value]

def set (a : Args) (s : Setting) : Args :=
  match s.key with
  | .listen => { a with listen := s.value }
  | .target => { a with target := s.value }
  | .web => { a with web := s.value }

inductive Refused : List String → String → Prop
  | missing (k : Key) : Refused [k.flag] (missing k.flag)
  | help {arg} (it) (h : arg = "-h" ∨ arg = "--help") : Refused (arg :: it) usage
  | unknown {arg} (it) (hk : ∀ k : Key, arg ≠ k.flag) (hh : arg ≠ "-h" ∧ arg ≠ "--help") :
      Refused (arg :: it) (unknown arg)

theorem parseFrom_setting (s : Setting) (it : List String) (a : Args) :
    parseFrom (s.words ++ it) a = parseFrom it (a.set s) := by
  obtain ⟨k, value⟩ := s
  cases k <;> rfl

theorem parseFrom_settings (settings : List Setting) (it : List String) (a : Args) :
    parseFrom (settings.flatMap Setting.words ++ it) a = parseFrom it (settings.foldl set a) := by
  induction settings generalizing a with
  | nil => rfl
  | cons s settings ih =>
    rw [List.flatMap_cons, List.append_assoc, parseFrom_setting, ih, List.foldl_cons]

theorem parseFrom_other {arg : String} (hk : ∀ k : Key, arg ≠ k.flag) (it : List String)
    (a : Args) : parseFrom (arg :: it) a =
      if arg = "-h" ∨ arg = "--help" then .error usage else .error (unknown arg) := by
  have hlisten : arg ≠ "--listen" := hk .listen
  have htarget : arg ≠ "--target" := hk .target
  have hweb : arg ≠ "--web" := hk .web
  cases it <;> simp only [parseFrom, hlisten, htarget, hweb, if_false]

theorem parseFrom_refused {it : List String} {msg : String} (h : Refused it msg) (a : Args) :
    parseFrom it a = .error msg := by
  cases h with
  | missing k => cases k <;> rfl
  | help it h =>
    rw [parseFrom_other, if_pos h]
    rintro k rfl
    revert h
    cases k <;> decide
  | unknown it hk hh => rw [parseFrom_other hk, if_neg (not_or.mpr hh)]

inductive Reads : List String → Prop
  | whole (settings : List Setting) : Reads (settings.flatMap Setting.words)
  | refused (settings : List Setting) {it msg} (h : Refused it msg) :
      Reads (settings.flatMap Setting.words ++ it)

theorem reads_setting (s : Setting) {it : List String} (h : Reads it) : Reads (s.words ++ it) := by
  cases h with
  | whole settings => exact .whole (s :: settings)
  | refused settings h =>
    have hreads := Reads.refused (s :: settings) h
    rwa [List.flatMap_cons, List.append_assoc] at hreads

theorem reads_key (k : Key) {it : List String}
    (ih : ∀ value rest, it = value :: rest → Reads rest) : Reads (k.flag :: it) := by
  cases it with
  | nil => exact .refused [] (.missing k)
  | cons value rest => exact reads_setting ⟨k, value⟩ (ih value rest rfl)

theorem reads_all (it : List String) : Reads it := by
  induction hn : it.length using Nat.strong_induction_on generalizing it with
  | _ n ih =>
    cases it with
    | nil => exact .whole []
    | cons arg it =>
      have htail (value : String) (rest : List String) (hit : it = value :: rest) :
          Reads rest := by
        refine ih rest.length ?_ rest rfl
        rw [← hn, hit, List.length_cons, List.length_cons]
        omega
      by_cases hkey : ∃ k : Key, arg = k.flag
      · obtain ⟨k, rfl⟩ := hkey
        exact reads_key k htail
      · by_cases hhelp : arg = "-h" ∨ arg = "--help"
        · exact .refused [] (.help it hhelp)
        · exact .refused [] (.unknown it (fun k hk => hkey ⟨k, hk⟩) (not_or.mp hhelp))

theorem parse_settings (settings : List Setting) :
    parse (settings.flatMap Setting.words) = .ok (settings.foldl set initial) := by
  have hparse := parseFrom_settings settings [] initial
  rwa [List.append_nil] at hparse

theorem parse_refused (settings : List Setting) {it : List String} {msg : String}
    (h : Refused it msg) : parse (settings.flatMap Setting.words ++ it) = .error msg := by
  rw [parse, parseFrom_settings, parseFrom_refused h]

theorem arguments_grammar (it : List String) :
    (∀ a, parse it = .ok a ↔ ∃ settings : List Setting,
      it = settings.flatMap Setting.words ∧ a = settings.foldl set initial) ∧
    ∀ msg, parse it = .error msg ↔ ∃ (settings : List Setting) (rest : List String),
      it = settings.flatMap Setting.words ++ rest ∧ Refused rest msg := by
  refine ⟨fun a => ⟨fun h => ?_, ?_⟩, fun msg => ⟨fun h => ?_, ?_⟩⟩
  · cases reads_all it with
    | whole settings =>
      rw [parse_settings] at h
      exact ⟨settings, rfl, (Except.ok.inj h).symm⟩
    | refused settings hrefused =>
      rw [parse_refused settings hrefused] at h
      cases h
  · rintro ⟨settings, rfl, rfl⟩
    exact parse_settings settings
  · cases reads_all it with
    | whole settings =>
      rw [parse_settings] at h
      cases h
    | @refused settings rest _ hrefused =>
      rw [parse_refused settings hrefused] at h
      exact ⟨settings, rest, rfl, Except.error.inj h ▸ hrefused⟩
  · rintro ⟨settings, rest, rfl, hrefused⟩
    exact parse_refused settings hrefused

end Args

end DapProxy.Host
