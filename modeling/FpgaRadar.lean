import FpgaRadar.TelemetreUs.Range
import FpgaRadar.TelemetreUs.Progress
import FpgaRadar.TelemetreUs.Independence
import FpgaRadar.TelemetreUs.ResetSafety
import FpgaRadar.TelemetreUs.Generics
import FpgaRadar.Radar.Refinement
import FpgaRadar.Toplevel.Following
import FpgaRadar.Toplevel.Nios2Telemetre
import FpgaRadar.Toplevel.Nios2Servomoteur
import FpgaRadar.AvalonSevenSegment.Decode
import FpgaRadar.AvalonSevenSegment.Negative
import FpgaRadar.AvalonSevenSegment.RegisterFile
import FpgaRadar.AdcLtc2308.Acquisition
