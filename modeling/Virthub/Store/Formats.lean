import Virthub.Lib.MiniFloat

/-! The small formats of the quantisers. The host and the device each have their own constants. -/
namespace Virthub.Store
open Virthub.Lib

def e4m3 : MiniFormat where
  signBit := 7
  mantBits := 3
  bias := 7
  expLimit := 15
  lowest := -7
  infinity := 0x78
  nan := 0x7F

def e5m2 : MiniFormat where
  signBit := 7
  mantBits := 2
  bias := 15
  expLimit := 31
  lowest := -1
  infinity := 0x7C
  nan := 0x7F

end Virthub.Store

namespace Virthub.Kernels.QuantizationUtils
open Virthub.Lib

def e4m3 : MiniFormat where
  signBit := 7
  mantBits := 3
  bias := 7
  expLimit := 15
  lowest := -7
  infinity := 0x78
  nan := 0x7F

def e5m2 : MiniFormat where
  signBit := 7
  mantBits := 2
  bias := 15
  expLimit := 31
  lowest := -1
  infinity := 0x7C
  nan := 0x7F

def e2m1 : MiniFormat where
  signBit := 3
  mantBits := 1
  bias := 1
  expLimit := 3
  lowest := -1
  infinity := 0x6
  nan := 0x7

end Virthub.Kernels.QuantizationUtils
