import MFoES.Libgfx.RoundTrip
import MFoES.Libgfx.RenderSafety
import MFoES.Libgfx.TextState
import MFoES.Libgfx.Transparency
import MFoES.Libgfx.OsdFrames
import MFoES.Libgfx.MultiBuffer
import MFoES.Libgfx.PageFlip
import MFoES.Libgfx.Reset
import MFoES.Libgfx.Termination
import MFoES.Libgfx.RoundFills
import MFoES.Libgfx.CanvasRuns
import MFoES.Libgfx.Blits
import MFoES.Libgfx.TextLayout
import MFoES.Libgfx.StdVectorRuns
import MFoES.Libgfx.StdPrintfOutput
import MFoES.Usbd.ByteQueue
import MFoES.Usbd.Conservation
import MFoES.Usbd.ReadAll
import MFoES.Usbd.RegularReads
import MFoES.Usbd.SlotRuns
import MFoES.Usbd.UsbdClient
import MFoES.Usbproto.ReadOffsets
import MFoES.Usbproto.BrokerRuns
import MFoES.Usbproto.SendData
import MFoES.Usbproto.Session
import MFoES.Northbridge.FrameCodec
import MFoES.Northbridge.ErrorDetection
import MFoES.Northbridge.RequestRuns
import MFoES.Northbridge.SlaveRuns
import MFoES.Northbridge.I2cBusRuns
import MFoES.Northbridge.LedCommands
import MFoES.Northbridge.PanelEvents
import MFoES.Northbridge.Encoder
import MFoES.Northbridge.EncoderTask
import MFoES.Northbridge.Debounce
import MFoES.Northbridge.RtcSeeding
import MFoES.App.ClockLink
import MFoES.Tools.FastPath
import MFoES.Tools.Channels
import MFoES.Tools.RemoteViewer
import MFoES.Tools.Recording
import MFoES.Tools.VideoTransfer
import MFoES.Usbd.Uplink
import MFoES.Usbd.Downlink
import MFoES.Tools.FontPacking
import MFoES.Ota.Apply
import MFoES.Ota.UploadRuns
import MFoES.Ota.InstallRuns
import MFoES.Ota.MD5
import MFoES.Southbridge.RingRuns
import MFoES.Southbridge.AudioBalance
import MFoES.Southbridge.RingFifo
import MFoES.Southbridge.FrameFormat
import MFoES.Southbridge.Reset
import MFoES.Touch.Bracketing
import MFoES.Uisys.OwnFinger
import MFoES.Uisys.HeldButtons
import MFoES.Uisys.Focus
import MFoES.Uisys.ButtonProtocol
import MFoES.Uisys.DialogAnswers
import MFoES.Uisys.ComboBox
import MFoES.Uisys.TextLimits
import MFoES.Uisys.DialogText
import MFoES.App.ClockPolicy
import MFoES.App.CompleteFrames
import MFoES.App.DeferredActions
import MFoES.App.DisplayLink
import MFoES.App.TileStream
import MFoES.App.InputRecords
import MFoES.Firmware.ControlLine
