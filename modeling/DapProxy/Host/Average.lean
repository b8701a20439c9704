import DapProxy.Host.Link
import DapProxy.Memory.Loops

namespace DapProxy.Host.Metrics

def above (hi : ℕ) (m : Metrics) : ℕ := m.linkRttEwma - hi

def below (lo : ℕ) (m : Metrics) : ℕ := lo - 4 - m.linkRttEwma

def Fits (m : Metrics) : Prop := m.linkRttEwma ≤ 4294967295

end DapProxy.Host.Metrics
