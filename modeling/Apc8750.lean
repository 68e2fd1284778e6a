import Apc8750.MemBlock.Alloc
import Apc8750.MemBlock.GetPut
import Apc8750.MemBlock.Leaks
import Apc8750.MemBlock.Translate
import Apc8750.Prdt.Agree
import Apc8750.Clock.Gating
import Apc8750.Clock.Transient
import Apc8750.Gmp.Lock
import Apc8750.Gmp.Coalesce
import Apc8750.Env.Failures
import Apc8750.NandEnv.PowerFail
import Apc8750.NandEnv.Uboot
import Apc8750.Nand.Survive
import Apc8750.Nand.Load
import Apc8750.SfEnv.Interleave
import Apc8750.SpiFlash.Write
import Apc8750.Video.Capture
import Apc8750.Video.Animation
import Apc8750.Camera.Queue
import Apc8750.Camera.Memory
import Apc8750.Display.Accounts
import Apc8750.Display.Pacing
import Apc8750.Edid.Decoders
import Apc8750.Edid.Options
import Apc8750.Vout.Best
import Apc8750.Vout.EdidMode
import Apc8750.Vpp.Bilinear
import Apc8750.Hdmi.Ddc
import Apc8750.Hdmi.Ecc
import Apc8750.Hdmi.Cec
import Apc8750.Audio.Wfd
import Apc8750.I2c.Completion
import Apc8750.Spi.Reports
import Apc8750.Mmc.Ends
import Apc8750.Mmc.Data
import Apc8750.Usb.Toggle
import Apc8750.Usb.Chain
import Apc8750.Uart.Receive
import Apc8750.Mtd.Clock
import Apc8750.Mtd.Repair
import Apc8750.Rtc.Time
import Apc8750.Audio.Mixer
import Apc8750.Power.Battery
import Apc8750.Dma.Layout
import Apc8750.SfEnv.Detect
import Apc8750.SfEnv.Early
